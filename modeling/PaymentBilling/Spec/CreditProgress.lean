import PaymentBilling.Spec.Healthy

/-!
# Spec.CreditProgress

When a call of the credits service changes a balance.

A grant does when it is positive, new and fits the balance; a deduction when it
is positive, new and covered.  A call that runs alone changes nothing otherwise,
and one that nothing fails for is then sure to make its change.
-/

namespace PaymentBilling

open Relational Transact

namespace CreditsService

/-- The grant changes the balance of a user. -/
def Grants (userId amount : Js) (key : String) (db : Data) : Prop :=
  ∃ user n, userId = .str user ∧ amount = .int n ∧ 0 < n ∧ inInt32 n = true ∧ Unlogged key db ∧
    CreditsFit user n db

/-- The deduction does. -/
def Deducts (userId amount : Js) (key : String) (db : Data) : Prop :=
  ∃ user n, userId = .str user ∧ amount = .int n ∧ 0 < n ∧ Unlogged key db ∧ n ≤ balanceOf user db

section Progress

variable {W : Env → Prop} {userId amount : Js} {description key : String} {metadata : Metadata}
  {type : CreditTransactionType} {c : LocalState} {v db db' : Data}

/-- A key is logged or not. -/
theorem not_unlogged (h : Logged key db) : ¬Unlogged key db := by
  obtain ⟨row, hrow, hk⟩ := h
  exact fun hu => hu row hrow hk

theorem Grants.unlogged (h : Grants userId amount key db) : Unlogged key db := by
  obtain ⟨_, _, -, -, -, -, hnew, -⟩ := h
  exact hnew

/-- Who is granted credits exists. -/
theorem Grants.hasUser (hv : schema.Valid db) (h : Grants userId amount key db) :
    ∃ user, userId = .str user ∧ HasUser user db := by
  obtain ⟨user, _, huser, -, -, -, -, hfit⟩ := h
  exact ⟨user, huser, hfit.hasUser hv⟩

theorem Deducts.unlogged (h : Deducts userId amount key db) : Unlogged key db := by
  obtain ⟨_, _, -, -, -, hnew, -⟩ := h
  exact hnew

/-! ### Grants -/

/-- A grant that runs alone changes nothing but what it is for. -/
theorem wp_grantCredits_kept :
    soloProtocol.wp (grantCredits userId amount type description key metadata)
      (fun _ c' db' => c'.stack = c.stack ∧ (db' = db ∨ Grants userId amount key db)) c db := by
  refine wp_grantCredits _ (K := fun db' => db' = db) (N := Unlogged key)
    (fun _ _ _ _ hs hk => hs.env.trans hk) rfl (fun _ _ hu => hu) (fun _ _ _ _ hs hn => ?_)
    (fun e c' db' hc hk _ => ⟨hc, .inl hk⟩) (fun r c' db' hc hk _ => ⟨hc, .inl hk⟩)
    fun r t c' db₁ user n huser hamount hpos hstack _ hs hk hn hchange =>
      ⟨⟨trivial, trivial⟩, rfl, .inr ?_⟩
  · rw [hs.env]
    exact hn
  · have hfits := hs.fits hstack
    subst hk
    exact ⟨user, n, huser, hamount, hpos, hchange.inRange hs.valid hfits, hn,
      creditsFit_of_change hchange hs.valid hfits⟩

/-- A grant that can change the balance is sure to be logged. -/
theorem sure_grants (hv : schema.Valid db) (hfree : FreeOf creditTables c.stack)
    (h : Grants userId amount key db) :
    postgres.Sure W (grantCredits userId amount type description key metadata)
      (fun r _ db' => (∃ a, r = .ok a) ∧ Logged key db') c db := by
  obtain ⟨user, n, rfl, rfl, hpos, hn, -, hfit⟩ := h
  refine (sure_grantCredits hv hfree hpos (.inr ⟨hn, hfit⟩)).mono fun r c' db' hr => ?_
  obtain ⟨a, hr, -, hlogged⟩ := hr
  exact ⟨⟨a, hr⟩, hlogged⟩

/-! ### Deductions -/

/-- A deduction that runs alone changes nothing but what it is for. -/
theorem wp_deductCredits_kept (hne : key ≠ "") :
    soloProtocol.wp (deductCredits userId amount description (some key) metadata)
      (fun _ c' db' => c'.stack = c.stack ∧ (db' = db ∨ Deducts userId amount key db)) c db := by
  have hgiven : givenKey (some key) = some key := Option.filter_some_pos (decide_eq_true hne)
  refine wp_deductCredits _ (K := fun db' => db' = db) (N := Unlogged key)
    (fun _ _ _ _ hs hk => hs.env.trans hk) rfl (fun k hk _ _ hu => ?_)
    (fun _ _ _ _ _ _ hs hn => ?_) (fun e c' db' hc hk _ => ⟨hc, .inl hk⟩)
    (fun r c' db' _ _ hc hk _ => ⟨hc, .inl hk⟩)
    fun r t c' db₁ user n huser hamount hpos hstack hn hs hk hchange =>
      ⟨⟨trivial, trivial⟩, rfl, .inr ?_⟩
  · obtain rfl := Option.some.inj (hgiven.symm.trans hk)
    exact hu
  · rw [hs.env]
    exact hn
  · subst hk
    exact ⟨user, n, huser, hamount, hpos, (hn key hgiven).2, covered_of_change hs.valid hpos hchange⟩

/-- The balance is lowered when it covers the amount. -/
theorem goes_deductLocked {user : String} {n : Int} (hv : schema.Valid v) (hpos : 0 < n)
    (hcover : n ≤ balanceOf user v) :
    postgres.Goes (LocksOf creditTables) W
      (deductLocked (.str user) (.int n) description (some key) metadata)
      (fun _ v' => Logged key v') v := by
  cases hfind : schema.findBy .credits (.userId user) v with
  | none =>
      rw [balanceOf, hfind] at hcover
      have hzero : n ≤ 0 := hcover
      omega
  | some row =>
      rw [balanceOf, hfind] at hcover
      have hcover : n ≤ row.balance := hcover
      have hmem := Schema.mem_of_findBy hfind
      have hfit : inInt32 row.balance = true := hv.fits .credits row hmem
      simp only [inInt32, decide_eq_true_eq] at hfit
      have hn : inInt32 n = true := by
        simp only [inInt32, decide_eq_true_eq]
        omega
      have hneg : inInt32 (-n) = true := by
        simp only [inInt32, decide_eq_true_eq]
        omega
      have hrest : inInt32 (row.balance + -n) = true := by
        simp only [inInt32, decide_eq_true_eq]
        omega
      refine Engine.goes_bind (Engine.goes_exec
        (fun env _ => ⟨_, _, creditsForUpdate_ok user⟩) fun env rows ws _ hx => ⟨fun l hl => ?_, ?_⟩)
      · obtain ⟨rfl, -⟩ := exec_creditsForUpdate hx
        have hclaims : postgres.claims (.creditsForUpdate (.str user)) v = [.row .credits row.id] := by
          simp [postgres, engine, claims, hfind]
        rw [Engine.needs, hclaims] at hl
        obtain rfl := List.mem_singleton.mp hl
        exact .head _
      · rw [creditsForUpdate_ok, hfind] at hx
        obtain ⟨rfl, rfl⟩ := Prod.mk.inj (Except.ok.inj hx)
        have hlow : (Js.int row.balance).lt (.int n) = false := by simpa using hcover
        show postgres.Goes _ W (if (Js.int row.balance).lt (.int n) then _ else _) _ v
        rw [hlow, if_neg Bool.false_ne_true]
        refine Engine.goes_bind (goes_query (by simp [WritesIn, Stmt.writes, creditTables]) rfl
          (fun env _ => creditsUpdate_ok hv hn hfind hrest) fun env row' ws _ hx' => ?_)
        have hrow : ∃ r, schema.find .credits row.id (postgres.applyAll ws v) = some r :=
          exists_find_mono (locking.le_applyAll _ v) ⟨row, hv.find_of_mem hmem⟩
        refine Engine.goes_bind (goes_query (by simp [WritesIn, Stmt.writes, creditTables]) rfl
          (fun env _ => creditTransactionCreate_ok (by rw [Js.neg_int]) hneg hrow)
            fun env log ws' _ hx' => ?_)
        obtain ⟨m, -, rfl, hlog⟩ := exec_creditTransactionCreate hx'
        refine Engine.goes_pure ⟨log, ?_, by rw [hlog]⟩
        rw [applyAll_single, Schema.apply_insert_self]
        simp

/-- A deduction that can change the balance is sure to be logged. -/
theorem sure_deducts (hv : schema.Valid db) (hfree : FreeOf creditTables c.stack) (hne : key ≠ "")
    (h : Deducts userId amount key db) :
    postgres.Sure W (deductCredits userId amount description (some key) metadata)
      (fun r _ db' => (∃ a, r = .ok a) ∧ Logged key db') c db := by
  obtain ⟨user, n, rfl, rfl, hpos, hnew, hcover⟩ := h
  have hgiven : givenKey (some key) = some key := Option.filter_some_pos (decide_eq_true hne)
  have hnot : (Js.int n).le (.int 0) = false := by
    rw [Js.le_int, decide_eq_false_iff_not]
    omega
  rw [deductCredits, hnot, if_neg Bool.false_ne_true, hgiven]
  refine (Engine.Goes.sure_transaction (Q := fun _ v' => Logged key v') hfree ?_).mono
    fun r c' db' hr => ?_
  · refine Engine.goes_bind (goes_query (by simp [WritesIn, Stmt.writes]) rfl
      (fun env _ => ⟨_, _, creditTransactionFindFirst_ok key⟩) fun env found ws _ hx => ?_)
    obtain ⟨rfl, hfound⟩ := exec_creditTransactionFindFirst hx
    cases found with
    | some existing =>
        have hk : existing.idempotencyKey = some key := by
          simpa using List.find?_some hfound.symm
        exact (hnew existing (List.mem_of_find?_eq_some hfound.symm) hk).elim
    | none => exact goes_deductLocked hv hpos hcover
  · obtain ⟨a, hr, -, hlogged⟩ := hr
    exact ⟨⟨a, hr⟩, hlogged⟩

end Progress

end CreditsService

end PaymentBilling

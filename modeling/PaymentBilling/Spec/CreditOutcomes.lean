import PaymentBilling.Spec.CreditBooks
import PaymentBilling.Transact.Solo

/-!
# Spec.CreditOutcomes

What a call of the credits service comes to when nobody else is at work and no
action fails: one of a few outcomes, told by the database that it starts on.
-/

namespace PaymentBilling

open Relational Transact

/-- Nobody else is at work, and nothing has to be kept. -/
abbrev soloProtocol : Protocol locking (fun _ => True) := .solo locking fun _ => True

namespace CreditsService

/-- What a grant makes of the database. -/
inductive Granted (userId amount : Js) (key : String) (db : Data) : Data → Prop
  | nonpositive (h : amount.le (.int 0) = true) : Granted userId amount key db db
  | known (h : Logged key db) : Granted userId amount key db db
  | changed {user : String} {n : Int} {ws : List RowWrite} (huser : userId = .str user)
      (hamount : amount = .int n) (hpos : 0 < n) (hnew : Unlogged key db)
      (hfits : locking.fitsAll ws db) (hchange : CreditChange user n (some key) ws db) :
      Granted userId amount key db (postgres.applyAll ws db)

/-- What a deduction makes of the database. -/
inductive Deducted (userId amount : Js) (key : Option String) (db : Data) : Data → Prop
  | nonpositive (h : amount.le (.int 0) = true) : Deducted userId amount key db db
  | known {k : String} (hk : givenKey key = some k) (h : Logged k db) : Deducted userId amount key db db
  | uncovered (h : ∀ user, userId = .str user →
      Uncovered amount (schema.findBy .credits (.userId user) db).toList) :
      Deducted userId amount key db db
  | changed {user : String} {n : Int} {ws : List RowWrite} (huser : userId = .str user)
      (hamount : amount = .int n) (hpos : 0 < n) (hnew : ∀ k, givenKey key = some k → Unlogged k db)
      (hfits : locking.fitsAll ws db) (hchange : CreditChange user (-n) (givenKey key) ws db) :
      Deducted userId amount key db (postgres.applyAll ws db)

section Rules

variable {c : LocalState} {db : Data} {userId amount : Js} {description : String} {metadata : Metadata}

theorem wp_grantCredits_alone {type : CreditTransactionType} {key : String} :
    soloProtocol.wp (grantCredits userId amount type description key metadata)
      (fun r c' db' => c'.stack = c.stack ∧
        (Flawless c'.trace → Granted userId amount key db db' ∧
          ∀ e, r = .error e → amount.le (.int 0) = true)) c db := by
  refine wp_grantCredits _ (K := fun db' => db' = db) (N := Unlogged key)
    (fun _ _ _ _ hs hk => hs.env.trans hk) rfl (fun _ _ hu => hu) (fun _ _ _ _ hs hn => ?_)
    (fun e c' db' hc hk hreason => ⟨hc, fun hflawless => ?_⟩)
    (fun r c' db' hc hk hlogged => ⟨hc, fun _ => ⟨?_, nofun⟩⟩)
    fun r t c' db₁ user n huser hamount hpos hstack _ hs hk hn hchange =>
      ⟨⟨trivial, trivial⟩, rfl, fun _ => ⟨?_, nofun⟩⟩
  · rw [hs.env]
    exact hn
  · subst hk
    rcases hreason with hpos | hfailed
    · exact ⟨.nonpositive hpos, fun _ _ => hpos⟩
    · exact (hfailed.not_flawless hflawless).elim
  · subst hk
    exact .known hlogged
  · subst hk
    exact .changed huser hamount hpos hn (hs.fits hstack) hchange

/-- Only a positive amount is granted. -/
theorem wp_grantCredits_positive {type : CreditTransactionType} {key : String} :
    soloProtocol.wp (grantCredits userId amount type description key metadata)
      (fun r c' db' => c'.stack = c.stack ∧ (Flawless c'.trace → Granted userId amount key db db' ∧
        ∀ a, r = .ok a → amount.le (.int 0) = false)) c db := by
  cases hpos : amount.le (.int 0) with
  | true =>
      rw [grantCredits, if_pos hpos]
      exact ⟨rfl, fun _ => ⟨.nonpositive hpos, nofun⟩⟩
  | false =>
      exact Protocol.wp_mono _ (fun _ _ _ hr => ⟨hr.1, fun hf => ⟨(hr.2 hf).1, fun _ _ => rfl⟩⟩)
        wp_grantCredits_alone

theorem wp_deductCredits_alone {key : Option String} :
    soloProtocol.wp (deductCredits userId amount description key metadata)
      (fun _ c' db' => c'.stack = c.stack ∧
        (Flawless c'.trace → Deducted userId amount key db db')) c db := by
  refine wp_deductCredits _ (K := fun db' => db' = db)
    (N := fun db' => ∀ k, givenKey key = some k → Unlogged k db')
    (fun _ _ _ _ hs hk => hs.env.trans hk) rfl (fun k hk _ _ hu k' hk' => ?_)
    (fun _ _ _ _ _ _ hs hn => ?_) (fun e c' db' hc hk hreason => ⟨hc, fun hflawless => ?_⟩)
    (fun r c' db' k hkey hc hk hlogged => ⟨hc, fun _ => ?_⟩)
    fun r t c' db₁ user n huser hamount hpos hstack hn hs hk hchange =>
      ⟨⟨trivial, trivial⟩, rfl, fun _ => ?_⟩
  · obtain rfl := Option.some.inj (hk.symm.trans hk')
    exact hu
  · rw [hs.env]
    exact hn
  · subst hk
    rcases hreason with hpos | ⟨events, rows, db₁, -, -, hrows, rfl, hread⟩ | hfailed
    · exact .nonpositive hpos
    · exact .uncovered fun user huser => hread user huser ▸ hrows
    · exact (hfailed.not_flawless hflawless).elim
  · subst hk
    exact .known hkey hlogged
  · subst hk
    exact .changed huser hamount hpos (fun k hk => (hn k hk).2 k hk) (hs.fits hstack) hchange

end Rules

section Outcomes

variable {userId amount : Js} {db db' : Data} {user : String} {n : Int}

/-- Nothing happens for a key that is logged. -/
theorem Granted.of_logged {key : String} (h : Granted userId amount key db db') (hlogged : Logged key db) :
    db' = db := by
  cases h with
  | nonpositive => rfl
  | known => rfl
  | changed _ _ _ hnew =>
      obtain ⟨row, hrow, hk⟩ := hlogged
      exact (hnew row hrow hk).elim

/-- Nothing is deducted under a key that is logged. -/
theorem Deducted.of_logged {key : Option String} {k : String} (h : Deducted userId amount key db db')
    (hk : givenKey key = some k) (hlogged : Logged k db) : db' = db := by
  cases h with
  | nonpositive => rfl
  | known => rfl
  | uncovered => rfl
  | changed _ _ _ hnew =>
      obtain ⟨row, hrow, hkey⟩ := hlogged
      exact (hnew k hk row hrow hkey).elim

/-- A new grant raises the balance. -/
theorem Granted.balanceOf {key : String} (h : Granted (.str user) (.int n) key db db')
    (hv : schema.Valid db) (hpos : 0 < n) (hnew : Unlogged key db) :
    PaymentBilling.balanceOf user db' = PaymentBilling.balanceOf user db + n := by
  cases h with
  | nonpositive h =>
      rw [Js.le_int, decide_eq_true_eq] at h
      omega
  | known h =>
      obtain ⟨row, hrow, hk⟩ := h
      exact (hnew row hrow hk).elim
  | changed huser hamount _ _ hfits hchange =>
      obtain rfl := Js.str.inj huser
      obtain rfl := Js.int_inj.mp hamount
      rw [hchange.balanceOf hv hfits, if_pos rfl]

/-- What is deducted was there. -/
theorem covered_of_change {key : Option String} {ws : List RowWrite} (hv : schema.Valid db)
    (hpos : 0 < n) (h : CreditChange user (-n) key ws db) : n ≤ PaymentBilling.balanceOf user db := by
  cases h with
  | move row log hrow huser hlog hcover =>
      have hfind := findBy_userId hv (Schema.mem_of_find hrow)
      rw [huser] at hfind
      rw [PaymentBilling.balanceOf, hfind]
      show n ≤ row.balance
      omega
  | create row log huser hbalance hlog hneg => omega

/-- A new deduction lowers the balance if it covers the amount. -/
theorem Deducted.balanceOf {key : Option String} (h : Deducted (.str user) (.int n) key db db')
    (hv : schema.Valid db) (hpos : 0 < n) (hnew : ∀ k, givenKey key = some k → Unlogged k db) :
    PaymentBilling.balanceOf user db' =
      PaymentBilling.balanceOf user db - if n ≤ PaymentBilling.balanceOf user db then n else 0 := by
  cases h with
  | nonpositive h =>
      rw [Js.le_int, decide_eq_true_eq] at h
      omega
  | known hk h =>
      obtain ⟨row, hrow, hkey⟩ := h
      exact (hnew _ hk row hrow hkey).elim
  | uncovered h =>
      have hlow : ¬n ≤ PaymentBilling.balanceOf user db := by
        have hrows := h user rfl
        rw [PaymentBilling.balanceOf]
        cases hfind : schema.findBy .credits (.userId user) db with
        | none =>
            show ¬n ≤ 0
            omega
        | some row =>
            rw [hfind] at hrows
            have hlt : row.balance < n := by simpa [Uncovered] using hrows
            show ¬n ≤ row.balance
            omega
      rw [if_neg hlow, Int.sub_zero]
  | changed huser hamount _ _ hfits hchange =>
      obtain rfl := Js.str.inj huser
      obtain rfl := Js.int_inj.mp hamount
      rw [hchange.balanceOf hv hfits, if_pos rfl, if_pos (covered_of_change hv hpos hchange)]
      omega

/-- Other tables stay as they are. -/
theorem Deducted.other {key : Option String} (h : Deducted userId amount key db db') {t : Table}
    (ht : t ∉ creditTables) : db' t = db t := by
  simp only [creditTables, List.mem_cons, List.not_mem_nil, or_false, not_or] at ht
  cases h with
  | nonpositive => rfl
  | known => rfl
  | uncovered => rfl
  | changed _ _ _ _ _ hchange => exact hchange.other ht.1 ht.2

/-- Other keys stay unlogged. -/
theorem Deducted.unlogged {key : Option String} {k : String} (h : Deducted userId amount key db db')
    (hk : givenKey key ≠ some k) (hu : Unlogged k db) : Unlogged k db' := by
  cases h with
  | nonpositive => exact hu
  | known => exact hu
  | uncovered => exact hu
  | changed _ _ _ _ hfits hchange => exact hchange.unlogged hfits hk hu

end Outcomes

end CreditsService

end PaymentBilling

import PaymentBilling.Services.Credits
import PaymentBilling.Store.Effects
import PaymentBilling.Transact.Scope

/-!
# Spec.Credits

What a change of credits commits, under any protocol.

A grant or a deduction commits exactly one change of a balance together with
the row that logs it (`CreditChange`), or nothing.  The rules below reduce a
call to its commit: the caller says what its protocol makes of that one step,
and which facts about the looked-up key the others leave alone.
-/

namespace PaymentBilling

open Relational Transact

/-- The clients of the database. -/
abbrev LocalState : Type 1 := Local Stmt RowWrite RowLock Err

/-- The tables of the credits. -/
def creditTables : List Table := [.credits, .creditTransactions]

/-- The statement writes tables in `T` only. -/
def WritesIn (T : List Table) (β : Type) (s : Stmt β) : Prop := ∀ t, s.writes = some t → t ∈ T

theorem table_mem_of_writesIn {T : List Table} :
    ∀ β (s : Stmt β), WritesIn T β s → ∀ env db b ws, postgres.exec s env db = .ok (b, ws) →
      ∀ w ∈ ws, w.table ∈ T :=
  fun _ _ hs _ _ _ _ h w hw => hs w.table (table_of_exec h w hw)

theorem applyAll_single {w : RowWrite} {db : Data} :
    postgres.applyAll [w] db = schema.apply w db := rfl

theorem applyAll_pair {w w' : RowWrite} {db : Data} :
    postgres.applyAll [w, w'] db = schema.apply w' (schema.apply w db) := rfl

theorem apply_insert_other {t t' : Table} (h : t' ≠ t) (row : Row t) (db : Data) :
    schema.apply (.insert t row) db t' = db t' := Schema.apply_of_ne h

theorem apply_update_other {t t' : Table} (h : t' ≠ t) (i : String) (p : Patch t) (db : Data) :
    schema.apply (.update t i p) db t' = db t' := Schema.apply_of_ne h

/-- Writes of other tables leave a table alone. -/
theorem applyAll_other {t : Table} {ws : List RowWrite} {db : Data} (h : ∀ w ∈ ws, w.table ≠ t) :
    postgres.applyAll ws db t = db t := by
  induction ws generalizing db with
  | nil => rfl
  | cons w ws ih =>
      rw [List.forall_mem_cons] at h
      rw [Engine.applyAll_cons, ih h.2]
      exact Schema.apply_of_ne (Ne.symm h.1)

/-- Rows that nothing changes are never lost. -/
theorem mem_of_le {db db' : Data} {t : Table} {row : Row t} (hv : schema.Valid db)
    (hle : schema.le db db') (hfix : ∀ r : Row t, schema.fixed r = r) (h : row ∈ db t) :
    row ∈ db' t := by
  obtain ⟨row', hrow', hf⟩ := hle t (schema.id row) row (hv.find_of_mem h)
  rw [hfix, hfix] at hf
  exact hf ▸ Schema.mem_of_find hrow'

/-- A locked row stays as it is. -/
theorem find_of_same {db db' : Data} {t : Table} {i : String} {row : Row t}
    (h : locking.same (.row t i) db db') (hf : schema.find t i db = some row) :
    schema.find t i db' = some row := by
  have h : schema.find t i db = schema.find t i db' := h
  rw [← h, hf]

/-- The owner of a balance is fixed. -/
theorem credits_of_le {db db' : Data} {user : String} {row : Credits} (hv : schema.Valid db)
    (hle : locking.le db db') (hf : schema.findBy .credits (.userId user) db = some row) :
    row.userId = user ∧
      ∃ row', schema.find .credits row.id db' = some row' ∧ row'.id = row.id ∧
        row'.userId = user := by
  have hu : user = row.userId := by simpa [schema] using Schema.key_of_findBy hf
  obtain ⟨row', hrow', hfix⟩ := hle _ _ _ (hv.find_of_mem (Schema.mem_of_findBy hf))
  have hu' : row'.userId = row.userId := (Credits.mk.inj hfix).2.1
  exact ⟨hu.symm, row', hrow', Schema.id_of_find hrow', hu'.trans hu.symm⟩

/-- What a transaction of the credits service commits: the balance of `user`
changes by `n`, and one row logs it. -/
inductive CreditChange (user : String) (n : Int) (key : Option String) :
    List RowWrite → Data → Prop
  | move {db : Data} (row : Credits) (log : CreditTransaction)
      (hrow : schema.find .credits row.id db = some row) (huser : row.userId = user)
      (hlog : log.creditsId = row.id ∧ log.amount = n ∧ log.idempotencyKey = key)
      (hcover : 0 < n ∨ 0 ≤ row.balance + n) :
      CreditChange user n key
        [.update .credits row.id n, .insert .creditTransactions log] db
  | create {db : Data} (row : Credits) (log : CreditTransaction) (huser : row.userId = user)
      (hbalance : row.balance = n)
      (hlog : log.creditsId = row.id ∧ log.amount = n ∧ log.idempotencyKey = key)
      (hpos : 0 < n) :
      CreditChange user n key [.insert .credits row, .insert .creditTransactions log] db

/-- Text after a prefix is not empty. -/
theorem append_ne {p s : String} (h : p ≠ "") : p ++ s ≠ "" :=
  fun he => h (String.append_eq_empty_iff.mp he).1

namespace CreditsService

theorem givenKey_append {p s : String} (h : p ≠ "") : givenKey (some (p ++ s)) = some (p ++ s) :=
  Option.filter_some_pos (decide_eq_true (append_ne h))

/-! ## Tables -/

theorem shortCircuit_only {T : List Table} (userId : Js) (existing : CreditTransaction) :
    Only (WritesIn T) (shortCircuit userId existing) 0 :=
  only_bind (only_exec (by simp [WritesIn, Stmt.writes])) fun _ => only_pure _

/-- A grant only writes balances and their log. -/
theorem grantCredits_only (userId amount : Js) (type : CreditTransactionType)
    (description key : String) (metadata : Metadata) :
    Only (WritesIn [.credits, .creditTransactions])
      (grantCredits userId amount type description key metadata) 0 := by
  unfold grantCredits
  split
  · exact only_throw _
  · refine only_transaction (only_bind (only_exec (by simp [WritesIn, Stmt.writes])) fun found => ?_)
    cases found with
    | some existing => exact shortCircuit_only userId existing
    | none =>
        refine only_bind (only_exec (by simp [WritesIn, Stmt.writes])) fun _ => ?_
        exact only_bind (only_exec (by simp [WritesIn, Stmt.writes])) fun _ => only_pure _

theorem deductLocked_only (userId amount : Js) (description : String) (key : Option String)
    (metadata : Metadata) :
    Only (WritesIn [.credits, .creditTransactions])
      (deductLocked userId amount description key metadata) 0 := by
  refine only_bind (only_exec (by simp [WritesIn, Stmt.writes])) fun rows => ?_
  cases rows with
  | nil => exact only_throw _
  | cons locked rest =>
      simp only
      split
      · exact only_throw _
      · refine only_bind (only_exec (by simp [WritesIn, Stmt.writes])) fun _ => ?_
        exact only_bind (only_exec (by simp [WritesIn, Stmt.writes])) fun _ => only_pure _

/-- A deduction only writes balances and their log. -/
theorem deductCredits_only (userId amount : Js) (description : String) (key : Option String)
    (metadata : Metadata) :
    Only (WritesIn [.credits, .creditTransactions])
      (deductCredits userId amount description key metadata) 0 := by
  unfold deductCredits
  split
  · exact only_throw _
  · refine only_transaction ?_
    split
    · exact deductLocked_only ..
    · refine only_bind (only_exec (by simp [WritesIn, Stmt.writes])) fun found => ?_
      cases found with
      | some existing => exact shortCircuit_only userId existing
      | none => exact deductLocked_only ..

/-! ## Searching for a key -/

/-- Since it was `c`, a client has opened a transaction and not found `key`. -/
def Searched (key : String) (c : LocalState) (trace : List (Event Stmt Err)) : Prop :=
  ∃ events, trace = events ++ .stmt (.creditTransactionFindFirst key) (.ok none) :: .begin :: c.trace

theorem Searched.cons {key : String} {c : LocalState} {trace : List (Event Stmt Err)}
    (e : Event Stmt Err) (h : Searched key c trace) : Searched key c (e :: trace) := by
  obtain ⟨events, rfl⟩ := h
  exact ⟨e :: events, rfl⟩

/-- A call that started as `c` is in its transaction, and has not found `key`. -/
structure Searching (key : String) (c c' : LocalState) : Prop where
  stack : ∃ t, c'.stack = t :: c.stack
  trace : Searched key c c'.trace

/-- No row logs `key`. -/
def Unlogged (key : String) (db : Data) : Prop :=
  ∀ row ∈ db .creditTransactions, row.idempotencyKey ≠ some key

/-- Some row logs `key`. -/
def Logged (key : String) (db : Data) : Prop :=
  ∃ row ∈ db .creditTransactions, row.idempotencyKey = some key

theorem Logged.mono {key : String} {db db' : Data} (hv : schema.Valid db)
    (hle : schema.le db db') (h : Logged key db) : Logged key db' := by
  obtain ⟨row, hrow, hk⟩ := h
  exact ⟨row, mem_of_le hv hle (fun _ => rfl) hrow, hk⟩

/-- A call that started as `c` is in no transaction of its own, or in one. -/
def Within (c c' : LocalState) : Prop := c'.stack = c.stack ∨ ∃ t, c'.stack = t :: c.stack

/-- What a deduction of `amount` has read does not cover it. -/
def Uncovered (amount : Js) : List Credits → Prop
  | [] => True
  | row :: _ => (Js.int row.balance).lt amount = true

/-- Since it was `c`, a client has read a balance of the user, in a database of
which `K` holds, and it does not cover `amount`. -/
def Refused (userId amount : Js) (K : Data → Prop) (c c' : LocalState) : Prop :=
  ∃ events rows db, c'.trace = events ++ c.trace ∧
    Event.stmt (.creditsForUpdate userId) (.ok rows) ∈ events ∧ Uncovered amount rows ∧ K db ∧
    ∀ user, userId = .str user → rows = (schema.findBy .credits (.userId user) db).toList

section Rules

variable {I : Data → Prop} (P : Protocol locking I)
  {Q : Post Stmt Data RowWrite RowLock Err CreditsResult} {c : LocalState} {db : Data}
  {userId amount : Js} {description : String} {metadata : Metadata} {K N : Data → Prop}

/-- The lookup of a known key writes nothing, and the call ends with it. -/
theorem wp_shortCircuit {existing : CreditTransaction} {t : Tx RowWrite RowLock}
    {trace : List (Event Stmt Err)} (ht : t.writes = [])
    (hpast : ∃ events, trace = events ++ c.trace)
    (hK : ∀ c' db₁ db₂, Within c c' → P.Sees c' db₁ db₂ → K db₁ → K db₂) (hk : K db)
    (hthrow : ∀ e c' db', c'.stack = c.stack → K db' → FailedSince c c' → Q (.error e) c' db')
    (hhit : ∀ r c' db', c'.stack = c.stack → K db' → locking.le db db' → Q (.ok r) c' db') :
    P.wp (shortCircuit userId existing) (P.txPost Q) ⟨t :: c.stack, trace⟩ db := by
  obtain ⟨events, rfl⟩ := hpast
  unfold shortCircuit
  rw [P.wp_bind]
  refine P.wp_exec_tx (fun e db₁ hs₁ db₂ hs₂ => ?_) fun env found ws db₁ hs₁ hx => ?_
  · have hk₁ := hK _ _ _ (.inr ⟨_, rfl⟩) hs₁ hk
    exact hthrow _ _ _ rfl (hK _ _ _ (.inr ⟨_, rfl⟩) hs₂ hk₁)
      ⟨_ :: _ :: events, rfl, _, .tail _ (.head _), trivial⟩
  have hk₁ := hK _ _ _ (.inr ⟨_, rfl⟩) hs₁ hk
  obtain rfl := exec_creditsFindUnique hx
  refine ⟨_, _, rfl, fun db₂ hs₂ => ?_⟩
  have hk₂ := hK _ _ _ (.inr ⟨_, rfl⟩) hs₂ hk₁
  have hview : ∀ held, postgres.view ⟨t.writes ++ [], held⟩ db₂ = db₂ := by
    intro held
    rw [ht]
    rfl
  rw [hview]
  exact ⟨P.keeps_refl hs₂.inv, hhit _ _ _ rfl hk₂ (locking.le_trans hs₁.le hs₂.le),
    fun e => hthrow _ _ _ rfl hk₂ ⟨_ :: _ :: events, rfl, _, .head _, trivial⟩⟩

/-- A grant ends without an effect, or commits its change while its key is
still unlogged as far as `N` tells. -/
theorem wp_grantCredits {type : CreditTransactionType} {key : String}
    (hK : ∀ c' db₁ db₂, Within c c' → P.Sees c' db₁ db₂ → K db₁ → K db₂) (hk : K db)
    (hN₀ : ∀ db', K db' → Unlogged key db' → N db')
    (hN : ∀ c' db₁ db₂, Searching key c c' → P.Sees c' db₁ db₂ → N db₁ → N db₂)
    (hthrow : ∀ e c' db', c'.stack = c.stack → K db' →
      (amount.le (.int 0) = true ∨ FailedSince c c') → Q (.error e) c' db')
    (hhit : ∀ r c' db', c'.stack = c.stack → K db' → Logged key db' → Q (.ok r) c' db')
    (hcommit : ∀ r t c' db₁ user n, userId = .str user → amount = .int n → 0 < n →
      c'.stack = t :: c.stack → Searching key c c' → P.Sees c' db₁ db₁ → K db₁ → N db₁ →
      CreditChange user n (some key) t.writes db₁ →
      P.Keeps c' db₁ (postgres.view t db₁) ∧
        Q (.ok r) ⟨c.stack, .commit (.ok ()) :: c'.trace⟩ (postgres.view t db₁)) :
    P.wp (grantCredits userId amount type description key metadata) Q c db := by
  unfold grantCredits
  split
  · next hpos => exact hthrow _ _ _ rfl hk (.inl hpos)
  · next hpos =>
    refine P.wp_transaction fun db₁ hs₁ => ?_
    have hk₁ := hK c _ _ (.inl rfl) hs₁ hk
    rw [P.wp_bind]
    refine P.wp_exec_tx (fun e db₂ hs₂ db₃ hs₃ => ?_) fun env found ws db₂ hs₂ hx => ?_
    · have hk₂ := hK _ _ _ (.inr ⟨_, rfl⟩) hs₂ hk₁
      exact hthrow _ _ _ rfl (hK _ _ _ (.inr ⟨_, rfl⟩) hs₃ hk₂)
        (.inr ⟨[_, _, _], rfl, _, .tail _ (.head _), trivial⟩)
    have hk₂ := hK _ _ _ (.inr ⟨_, rfl⟩) hs₂ hk₁
    obtain ⟨rfl, hfound⟩ := exec_creditTransactionFindFirst hx
    cases found with
    | some existing =>
        have hlogged : Logged key db₂ :=
          ⟨existing, List.mem_of_find?_eq_some hfound.symm, by
            simpa using List.find?_some hfound.symm⟩
        show P.wp (shortCircuit userId existing) (P.txPost Q) _ _
        exact wp_shortCircuit P rfl ⟨[_, _], rfl⟩ hK hk₂
          (fun e c' db' hc hk' hf => hthrow e c' db' hc hk' (.inr hf))
          fun r c' db' hc hk' hle => hhit r c' db' hc hk' (hlogged.mono hs₂.valid hle)
    | none =>
        have hN₂ : N db₂ := hN₀ _ hk₂ fun row hrow hk => by
          simpa [hk] using List.find?_eq_none.mp hfound.symm row hrow
        -- the balance
        show P.wp (query (.creditsUpsert userId amount) >>= _) _ _ _
        rw [P.wp_bind]
        refine P.wp_exec_tx (fun e db₃ hs₃ db₄ hs₄ => ?_) fun env' row ws db₃ hs₃ hx₃ => ?_
        · have hk₃ := hK _ _ _ (.inr ⟨_, rfl⟩) hs₃ hk₂
          exact hthrow _ _ _ rfl (hK _ _ _ (.inr ⟨_, rfl⟩) hs₄ hk₃)
            (.inr ⟨[_, _, _, _], rfl, _, .tail _ (.head _), trivial⟩)
        have hk₃ := hK _ _ _ (.inr ⟨_, rfl⟩) hs₃ hk₂
        obtain ⟨user, n, rfl, hn, huser, hrow⟩ := exec_creditsUpsert hx₃
        obtain rfl := Js.int32?_eq_some hn
        have hpos : 0 < n := by simpa using hpos
        have hN₃ : N db₃ := hN _ _ _ ⟨⟨_, rfl⟩, ⟨[], rfl⟩⟩ hs₃ hN₂
        -- the log
        show P.wp (query (.creditTransactionCreate _) >>= _) _ _ _
        rw [P.wp_bind]
        refine P.wp_exec_tx (fun e db₄ hs₄ db₅ hs₅ => ?_) fun env' log ws' db₄ hs₄ hx₄ => ?_
        · have hk₄ := hK _ _ _ (.inr ⟨_, rfl⟩) hs₄ hk₃
          exact hthrow _ _ _ rfl (hK _ _ _ (.inr ⟨_, rfl⟩) hs₅ hk₄)
            (.inr ⟨[_, _, _, _, _], rfl, _, .tail _ (.head _), trivial⟩)
        have hk₄ := hK _ _ _ (.inr ⟨_, rfl⟩) hs₄ hk₃
        obtain ⟨m, hm, rfl, hlog⟩ := exec_creditTransactionCreate hx₄
        obtain rfl : n = m := by simpa using Js.int32?_eq_some hm
        have hN₄ : N db₄ := hN _ _ _ ⟨⟨_, rfl⟩, ⟨[_], rfl⟩⟩ hs₄ hN₃
        refine ⟨_, _, rfl, fun db₅ hs₅ => ?_⟩
        have hk₅ := hK _ _ _ (.inr ⟨_, rfl⟩) hs₅ hk₄
        have hN₅ : N db₅ := hN _ _ _ ⟨⟨_, rfl⟩, ⟨[_, _], rfl⟩⟩ hs₅ hN₄
        have hlog' : log.creditsId = row.id ∧ log.amount = n ∧ log.idempotencyKey = some key := by
          rw [hlog]
          exact ⟨rfl, rfl, rfl⟩
        have hchange : CreditChange user n (some key) (ws ++ [.insert .creditTransactions log]) db₅ := by
          rcases hrow with ⟨old, hf, hid, -, rfl⟩ | ⟨-, hbal, rfl⟩
          · obtain ⟨-, row', hrow', hid', huser'⟩ :=
              credits_of_le hs₃.valid (locking.le_trans hs₄.le hs₅.le) hf
            rw [← hid'] at hrow' hid ⊢
            exact .move row' log hrow' huser' (hid ▸ hlog') (.inl hpos)
          · exact .create row log huser hbal hlog' hpos
        obtain ⟨hkeep, hq⟩ := hcommit ⟨row.balance, log.id⟩ _ _ db₅ user n rfl rfl hpos rfl
          ⟨⟨_, rfl⟩, ⟨[_, _], rfl⟩⟩ (.refl P hs₅.valid hs₅.inv hs₅.stack) hk₅ hN₅ hchange
        exact ⟨hkeep, hq, fun e => hthrow _ _ _ rfl hk₅
          (.inr ⟨[_, _, _, _, _], rfl, _, .head _, trivial⟩)⟩

/-- A deduction that has not found its key ends without an effect, or commits
its change.  The lock it takes keeps the balance that it has compared. -/
theorem wp_deductLocked {key : Option String} {t : Tx RowWrite RowLock}
    {trace : List (Event Stmt Err)} (ht : t.writes = [])
    (hpos : amount.le (.int 0) = false) (hpast : ∃ events, trace = events ++ c.trace)
    (hK : ∀ c' db₁ db₂, Within c c' → P.Sees c' db₁ db₂ → K db₁ → K db₂) (hk : K db)
    (hN : ∀ k, key = some k → ∀ c' db₁ db₂, Searching k c c' → P.Sees c' db₁ db₂ → N db₁ → N db₂)
    (hsearch : ∀ k, key = some k → Searched k c trace ∧ N db)
    (hthrow : ∀ e c' db', c'.stack = c.stack → K db' →
      (Refused userId amount K c c' ∨ FailedSince c c') → Q (.error e) c' db')
    (hcommit : ∀ r t c' db₁ user n, userId = .str user → amount = .int n → 0 < n →
      c'.stack = t :: c.stack → (∀ k, key = some k → Searching k c c' ∧ N db₁) →
      P.Sees c' db₁ db₁ → K db₁ → CreditChange user (-n) key t.writes db₁ →
      P.Keeps c' db₁ (postgres.view t db₁) ∧
        Q (.ok r) ⟨c.stack, .commit (.ok ()) :: c'.trace⟩ (postgres.view t db₁)) :
    P.wp (deductLocked userId amount description key metadata) (P.txPost Q)
      ⟨t :: c.stack, trace⟩ db := by
  obtain ⟨past, rfl⟩ := hpast
  unfold deductLocked
  rw [P.wp_bind]
  refine P.wp_exec_tx (fun e db₁ hs₁ db₂ hs₂ => ?_) fun env rows ws db₁ hs₁ hx₁ => ?_
  · have hk₁ := hK _ _ _ (.inr ⟨_, rfl⟩) hs₁ hk
    exact hthrow _ _ _ rfl (hK _ _ _ (.inr ⟨_, rfl⟩) hs₂ hk₁)
      (.inr ⟨_ :: _ :: past, rfl, _, .tail _ (.head _), trivial⟩)
  have hk₁ := hK _ _ _ (.inr ⟨_, rfl⟩) hs₁ hk
  have hview : postgres.view t db₁ = db₁ := by
    unfold Engine.view
    rw [ht]
    rfl
  rw [hview] at hx₁
  have hread := exec_creditsForUpdate_rows hx₁
  obtain ⟨rfl, hrows⟩ := exec_creditsForUpdate hx₁
  have hN₁ : ∀ k, key = some k → N db₁ := fun k hk =>
    hN k hk _ _ _ ⟨⟨_, rfl⟩, (hsearch k hk).1⟩ hs₁ (hsearch k hk).2
  have hrefused : ∀ {stack}, Uncovered amount rows → Refused userId amount K c
      ⟨stack, .rollback :: .stmt (.creditsForUpdate userId) (.ok rows) :: (past ++ c.trace)⟩ :=
    fun h => ⟨_ :: _ :: past, rows, db₁, rfl, .tail _ (.head _), h, hk₁, hread⟩
  cases rows with
  | nil =>
      exact fun db₂ hs₂ => hthrow _ _ _ rfl (hK _ _ _ (.inr ⟨_, rfl⟩) hs₂ hk₁)
        (.inl (hrefused trivial))
  | cons locked rest =>
      obtain ⟨user, rfl, hlocked, hclaim⟩ := hrows locked (.head _)
      show P.wp (if _ then _ else _) _ _ _
      split
      · next hcover =>
        exact fun db₂ hs₂ => hthrow _ _ _ rfl (hK _ _ _ (.inr ⟨_, rfl⟩) hs₂ hk₁)
          (.inl (hrefused hcover))
      · next hcover =>
        -- the lowered balance is the locked one
        rw [P.wp_bind]
        refine P.wp_exec_tx (fun e db₂ hs₂ db₃ hs₃ => ?_) fun env' row ws db₂ hs₂ hx₂ => ?_
        · have hk₂ := hK _ _ _ (.inr ⟨_, rfl⟩) hs₂ hk₁
          exact hthrow _ _ _ rfl (hK _ _ _ (.inr ⟨_, rfl⟩) hs₃ hk₂)
            (.inr ⟨_ :: _ :: _ :: past, rfl, _, .tail _ (.head _), trivial⟩)
        have hk₂ := hK _ _ _ (.inr ⟨_, rfl⟩) hs₂ hk₁
        obtain ⟨user', n, old, huser', hn, hold, hbal, rfl⟩ := exec_creditsUpdate hx₂
        obtain rfl : user = user' := by simpa using huser'
        obtain rfl := Js.int32?_eq_some hn
        have hN₂ : ∀ k, key = some k → N db₂ := fun k hk =>
          hN k hk _ _ _ ⟨⟨_, rfl⟩, (hsearch k hk).1.cons _⟩ hs₂ (hN₁ k hk)
        have hheld : Lock.row .credits locked.id ∈
            t.held ++ postgres.needs (.creditsForUpdate (.str user)) (postgres.view t db₁) [] := by
          simp [Engine.needs, hview, hclaim]
        have hlocked₁ : schema.find .credits locked.id db₁ = some locked :=
          hs₁.valid.find_of_mem (Schema.mem_of_findBy hlocked)
        have hlocked₂ := find_of_same
          (hs₂.same (.row .credits locked.id) (List.mem_append_left _ hheld)) hlocked₁
        have hview₂ : ∀ held, postgres.view ⟨t.writes ++ [], held⟩ db₂ = db₂ := by
          intro held
          rw [ht]
          rfl
        rw [hview₂] at hold
        obtain rfl : old = locked :=
          hs₂.valid.eq_of_key (Schema.mem_of_findBy hold) (Schema.mem_of_find hlocked₂)
            (Schema.key_of_findBy hold) (Schema.key_of_findBy hlocked)
        -- the log
        show P.wp (query (.creditTransactionCreate _) >>= _) _ _ _
        rw [P.wp_bind]
        refine P.wp_exec_tx (fun e db₃ hs₃ db₄ hs₄ => ?_) fun env' log ws' db₃ hs₃ hx₃ => ?_
        · have hk₃ := hK _ _ _ (.inr ⟨_, rfl⟩) hs₃ hk₂
          exact hthrow _ _ _ rfl (hK _ _ _ (.inr ⟨_, rfl⟩) hs₄ hk₃)
            (.inr ⟨_ :: _ :: _ :: _ :: past, rfl, _, .tail _ (.head _), trivial⟩)
        have hk₃ := hK _ _ _ (.inr ⟨_, rfl⟩) hs₃ hk₂
        obtain ⟨m, hm, rfl, hlog⟩ := exec_creditTransactionCreate hx₃
        obtain rfl : -n = m := by simpa using Js.int32?_eq_some hm
        have hN₃ : ∀ k, key = some k → N db₃ := fun k hk =>
          hN k hk _ _ _ ⟨⟨_, rfl⟩, ((hsearch k hk).1.cons _).cons _⟩ hs₃ (hN₂ k hk)
        refine ⟨_, _, rfl, fun db₄ hs₄ => ?_⟩
        have hk₄ := hK _ _ _ (.inr ⟨_, rfl⟩) hs₄ hk₃
        have hN₄ : ∀ k, key = some k → N db₄ := fun k hk =>
          hN k hk _ _ _ ⟨⟨_, rfl⟩, (((hsearch k hk).1.cons _).cons _).cons _⟩ hs₄ (hN₃ k hk)
        have hlocked₃ := find_of_same (hs₃.same (.row .credits old.id)
          (List.mem_append_left _ (List.mem_append_left _ hheld))) hlocked₂
        have hlocked₄ := find_of_same (hs₄.same (.row .credits old.id)
          (List.mem_append_left _ (List.mem_append_left _ (List.mem_append_left _ hheld)))) hlocked₃
        have hchange : CreditChange user (-n) key
            (((t.writes ++ []) ++ [.update .credits old.id (-n)]) ++
              [.insert .creditTransactions log]) db₄ := by
          rw [ht]
          refine .move old log hlocked₄ ?_ (by rw [hlog]; exact ⟨rfl, rfl, rfl⟩) (.inr ?_)
          · exact (credits_of_le hs₁.valid (locking.le_refl _) hlocked).1
          · have hcover : n ≤ old.balance := by simpa using hcover
            omega
        obtain ⟨hkeep, hq⟩ := hcommit ⟨row.balance, log.id⟩ _ _ db₄ user n rfl rfl
          (by simpa using hpos) rfl (fun k hk =>
            ⟨⟨⟨_, rfl⟩, (((hsearch k hk).1.cons _).cons _).cons _⟩, hN₄ k hk⟩)
          (.refl P hs₄.valid hs₄.inv hs₄.stack) hk₄ hchange
        exact ⟨hkeep, hq, fun e => hthrow _ _ _ rfl hk₄
          (.inr ⟨_ :: _ :: _ :: _ :: past, rfl, _, .head _, trivial⟩)⟩

/-- A deduction ends without an effect, or commits its change while its key, if
it has one, is still unlogged as far as `N` tells. -/
theorem wp_deductCredits {key : Option String}
    (hK : ∀ c' db₁ db₂, Within c c' → P.Sees c' db₁ db₂ → K db₁ → K db₂) (hk : K db)
    (hN₀ : ∀ k, givenKey key = some k → ∀ db', K db' → Unlogged k db' → N db')
    (hN : ∀ k, givenKey key = some k → ∀ c' db₁ db₂, Searching k c c' → P.Sees c' db₁ db₂ →
      N db₁ → N db₂)
    (hthrow : ∀ e c' db', c'.stack = c.stack → K db' →
      (amount.le (.int 0) = true ∨ Refused userId amount K c c' ∨ FailedSince c c') →
      Q (.error e) c' db')
    (hhit : ∀ r c' db' k, givenKey key = some k → c'.stack = c.stack → K db' → Logged k db' →
      Q (.ok r) c' db')
    (hcommit : ∀ r t c' db₁ user n, userId = .str user → amount = .int n → 0 < n →
      c'.stack = t :: c.stack → (∀ k, givenKey key = some k → Searching k c c' ∧ N db₁) →
      P.Sees c' db₁ db₁ → K db₁ → CreditChange user (-n) (givenKey key) t.writes db₁ →
      P.Keeps c' db₁ (postgres.view t db₁) ∧
        Q (.ok r) ⟨c.stack, .commit (.ok ()) :: c'.trace⟩ (postgres.view t db₁)) :
    P.wp (deductCredits userId amount description key metadata) Q c db := by
  unfold deductCredits
  split
  · next hpos => exact hthrow _ _ _ rfl hk (.inl hpos)
  · next hpos =>
    rw [Bool.not_eq_true] at hpos
    refine P.wp_transaction fun db₁ hs₁ => ?_
    have hk₁ := hK c _ _ (.inl rfl) hs₁ hk
    cases hkey : givenKey key with
    | none =>
        rw [hkey] at hcommit
        exact wp_deductLocked P (N := N) rfl hpos ⟨[_], rfl⟩ hK hk₁ (fun _ h => by cases h)
          (fun _ h => by cases h)
          (fun e c' db' hc hk' h => hthrow e c' db' hc hk' (.inr h)) hcommit
    | some k =>
        show P.wp (query (.creditTransactionFindFirst k) >>= _) _ _ _
        rw [P.wp_bind]
        refine P.wp_exec_tx (fun e db₂ hs₂ db₃ hs₃ => ?_) fun env found ws db₂ hs₂ hx => ?_
        · have hk₂ := hK _ _ _ (.inr ⟨_, rfl⟩) hs₂ hk₁
          exact hthrow _ _ _ rfl (hK _ _ _ (.inr ⟨_, rfl⟩) hs₃ hk₂)
            (.inr (.inr ⟨[_, _, _], rfl, _, .tail _ (.head _), trivial⟩))
        have hk₂ := hK _ _ _ (.inr ⟨_, rfl⟩) hs₂ hk₁
        obtain ⟨rfl, hfound⟩ := exec_creditTransactionFindFirst hx
        cases found with
        | some existing =>
            have hlogged : Logged k db₂ :=
              ⟨existing, List.mem_of_find?_eq_some hfound.symm, by
                simpa using List.find?_some hfound.symm⟩
            show P.wp (shortCircuit userId existing) (P.txPost Q) _ _
            exact wp_shortCircuit P rfl ⟨[_, _], rfl⟩ hK hk₂
              (fun e c' db' hc hk' hf => hthrow e c' db' hc hk' (.inr (.inr hf)))
              fun r c' db' hc hk' hle => hhit r c' db' k hkey hc hk' (hlogged.mono hs₂.valid hle)
        | none =>
            have hN₂ : N db₂ := hN₀ k hkey _ hk₂ fun row hrow hk => by
              simpa [hk] using List.find?_eq_none.mp hfound.symm row hrow
            rw [hkey] at hN hcommit
            refine wp_deductLocked P (N := N) rfl hpos ⟨[_, _], rfl⟩ hK hk₂ hN
              (fun k' hk' => ?_) (fun e c' db' hc hk' h => hthrow e c' db' hc hk' (.inr h)) hcommit
            obtain rfl := Option.some.inj hk'
            exact ⟨⟨[], rfl⟩, hN₂⟩

end Rules

end CreditsService

end PaymentBilling

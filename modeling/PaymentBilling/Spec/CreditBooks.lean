import PaymentBilling.Spec.Credits

/-!
# Spec.CreditBooks

What a change of credits does to the balances and to the log.
-/

namespace PaymentBilling

open Relational Transact

/-- The balance of a user; no row is a balance of 0. -/
def balanceOf (user : String) (db : Data) : Int :=
  CreditsService.balanceOrZero (schema.findBy .credits (.userId user) db)

/-- The user whose balance a logged change belongs to. -/
def ownerOf (db : Data) (log : CreditTransaction) : Option String :=
  (schema.find .credits log.creditsId db).map (·.userId)

/-- At most one row logs `key`. -/
def LoggedOnce (key : String) (db : Data) : Prop :=
  ((db .creditTransactions).filter (·.idempotencyKey = some key)).length ≤ 1

/-- The sum of the logged changes of a user's balance. -/
def loggedTotal (user : String) (db : Data) : Int :=
  (((db .creditTransactions).filter fun log => ownerOf db log = some user).map (·.amount)).sum

section Books

variable {db db' : Data} {user user' : String} {n : Int} {key : Option String} {ws : List RowWrite}

theorem userId_of_findBy {row : Credits} (h : schema.findBy .credits (.userId user) db = some row) :
    row.userId = user := by
  have hk : user = row.userId := by simpa [schema] using Schema.key_of_findBy h
  exact hk.symm

theorem findBy_userId {row : Credits} (hv : schema.Valid db) (h : row ∈ db .credits) :
    schema.findBy .credits (.userId row.userId) db = some row :=
  hv.findBy_of_mem h (by simp [schema])

/-- What was logged keeps its owner. -/
theorem ownerOf_of_le {log : CreditTransaction} (hv : schema.Valid db) (hle : schema.le db db')
    (h : log ∈ db .creditTransactions) : ownerOf db' log = ownerOf db log := by
  have href : schema.resolves [(.credits, log.creditsId)] db = true := hv.refs .creditTransactions log h
  simp only [Schema.resolves, List.all_cons, List.all_nil, Bool.and_true,
    Option.isSome_iff_exists] at href
  obtain ⟨row, hrow⟩ := href
  obtain ⟨row', hrow', hfix⟩ := hle _ _ _ hrow
  have hu : row'.userId = row.userId := (Credits.mk.inj hfix).2.1
  rw [ownerOf, ownerOf, hrow, hrow', Option.map_some, Option.map_some, hu]

/-- One more logged row counts for its owner. -/
theorem loggedTotal_append {log : CreditTransaction} (hv : schema.Valid db)
    (hle : schema.le db db')
    (hlog : db' .creditTransactions = db .creditTransactions ++ [log]) (user' : String) :
    loggedTotal user' db' =
      loggedTotal user' db + if ownerOf db' log = some user' then log.amount else 0 := by
  have hold : (db .creditTransactions).filter (fun log => ownerOf db' log = some user') =
      (db .creditTransactions).filter fun log => ownerOf db log = some user' :=
    List.filter_congr fun l hl => by rw [ownerOf_of_le hv hle hl]
  rw [loggedTotal, hlog, List.filter_append, hold, List.map_append, List.sum_append, loggedTotal]
  by_cases h : ownerOf db' log = some user' <;> simp [h]

/-- The balance that is changed, and no other, moves by the increment. -/
theorem balanceOf_update {row : Credits} (hv : schema.Valid db)
    (hrow : schema.find .credits row.id db = some row) (user' : String) :
    balanceOf user' (schema.apply (.update .credits row.id n) db) =
      balanceOf user' db + if user' = row.userId then n else 0 := by
  have hmem : row ∈ db .credits := Schema.mem_of_find hrow
  rw [balanceOf, Schema.findBy_update, balanceOf]
  by_cases hu : user' = row.userId
  · subst hu
    rw [findBy_userId hv hmem, if_pos rfl, Option.map_some]
    have hrev : schema.revise row.id n row = schema.patch (t := .credits) n row := Schema.revise_self
    rw [hrev]
    rfl
  · rw [if_neg hu, Int.add_zero]
    cases hf : schema.findBy .credits (.userId user') db with
    | none => rfl
    | some other =>
        have hne : schema.id (t := .credits) other ≠ row.id := by
          intro he
          have heq : other = row := hv.eq_of_id (Schema.mem_of_findBy hf) hmem he
          exact hu ((userId_of_findBy hf).symm.trans (by rw [heq]))
        rw [Option.map_some, Schema.revise_of_ne hne]

/-- A balance that is created belongs to its user. -/
theorem balanceOf_insert {row : Credits}
    (hnone : schema.findBy .credits (.userId row.userId) db = none) (user' : String) :
    balanceOf user' (schema.apply (.insert .credits row) db) =
      balanceOf user' db + if user' = row.userId then row.balance else 0 := by
  rw [balanceOf, Schema.findBy_insert, balanceOf]
  by_cases hu : user' = row.userId
  · subst hu
    rw [hnone, if_pos rfl, if_pos (by simp [schema])]
    simp [CreditsService.balanceOrZero]
  · rw [if_neg hu, if_neg (by simpa [schema] using hu), Option.or_none, Int.add_zero]

/-- Logging a change moves no balance. -/
theorem balanceOf_log {log : CreditTransaction} :
    balanceOf user (schema.apply (.insert .creditTransactions log) db) = balanceOf user db := by
  rw [balanceOf, Schema.findBy_apply_of_ne (by simp [Write.table]), balanceOf]

/-- A change moves the balance of its user, and no other. -/
theorem CreditChange.balanceOf (h : CreditChange user n key ws db) (hv : schema.Valid db)
    (hfits : locking.fitsAll ws db) (user' : String) :
    PaymentBilling.balanceOf user' (postgres.applyAll ws db) =
      PaymentBilling.balanceOf user' db + if user' = user then n else 0 := by
  cases h with
  | move row log hrow huser hlog hcover =>
      rw [applyAll_pair, balanceOf_log, balanceOf_update hv hrow, huser]
  | create row log huser hbalance hlog hn =>
      have hnone : schema.findBy .credits (.userId row.userId) db = none :=
        (Schema.accepts_insert.mp hfits.1).2.2.1 _ (by simp [schema])
      rw [applyAll_pair, balanceOf_log, balanceOf_insert hnone, huser, hbalance]

/-- A change leaves no balance negative. -/
theorem CreditChange.nonneg (h : CreditChange user n key ws db) (hv : schema.Valid db)
    (hpos : ∀ row ∈ db .credits, 0 ≤ row.balance) :
    ∀ row ∈ postgres.applyAll ws db .credits, 0 ≤ row.balance := by
  intro row' hrow'
  cases h with
  | move row log hrow huser hlog hcover =>
      rw [applyAll_pair, Schema.apply_of_ne (by simp [Write.table]), Schema.apply_update_self,
        List.mem_map] at hrow'
      obtain ⟨old, hold, rfl⟩ := hrow'
      by_cases hid : schema.id (t := .credits) old = row.id
      · have heq : old = row := hv.eq_of_id hold (Schema.mem_of_find hrow) hid
        have hrev : schema.revise row.id n row = schema.patch (t := .credits) n row :=
          Schema.revise_self
        rw [heq, hrev]
        have hbal : 0 ≤ row.balance := hpos row (Schema.mem_of_find hrow)
        show 0 ≤ row.balance + n
        omega
      · rw [Schema.revise_of_ne hid]
        exact hpos old hold
  | create row log huser hbalance hlog hn =>
      rw [applyAll_pair, Schema.apply_of_ne (by simp [Write.table]), Schema.apply_insert_self,
        List.mem_append, List.mem_singleton] at hrow'
      rcases hrow' with hrow' | rfl
      · exact hpos row' hrow'
      · omega

/-- A change adds one row to the log, under the balance of its user. -/
theorem CreditChange.logged (h : CreditChange user n key ws db) (hfits : locking.fitsAll ws db) :
    ∃ log, postgres.applyAll ws db .creditTransactions = db .creditTransactions ++ [log] ∧
      ownerOf (postgres.applyAll ws db) log = some user ∧ log.amount = n ∧
      log.idempotencyKey = key := by
  cases h with
  | move row log hrow huser hlog hcover =>
      refine ⟨log, ?_, ?_, hlog.2.1, hlog.2.2⟩
      · rw [applyAll_pair, Schema.apply_insert_self, Schema.apply_of_ne (by simp [Write.table])]
      · rw [applyAll_pair, ownerOf, Schema.find_apply_of_ne (by simp [Write.table]),
          Schema.find_update, hlog.1, hrow, Option.map_some, Option.map_some]
        have hrev : schema.revise row.id n row = schema.patch (t := .credits) n row :=
          Schema.revise_self
        rw [hrev, ← huser]
        rfl
  | create row log huser hbalance hlog hn =>
      refine ⟨log, ?_, ?_, hlog.2.1, hlog.2.2⟩
      · rw [applyAll_pair, Schema.apply_insert_self, Schema.apply_of_ne (by simp [Write.table])]
      · rw [applyAll_pair, ownerOf, Schema.find_apply_of_ne (by simp [Write.table]),
          Schema.find_insert, hlog.1]
        have hid : schema.find .credits row.id db = none :=
          (Schema.accepts_insert.mp hfits.1).2.1
        rw [hid, ← huser]
        simp [schema]

/-- A change touches balances and their log only. -/
theorem CreditChange.other (h : CreditChange user n key ws db) {t : Table} (ht : t ≠ .credits)
    (ht' : t ≠ .creditTransactions) : postgres.applyAll ws db t = db t := by
  cases h with
  | move row log _ _ _ _ =>
      rw [applyAll_pair, apply_insert_other ht', apply_update_other ht]
  | create row log _ _ _ _ =>
      rw [applyAll_pair, apply_insert_other ht', apply_insert_other ht]

/-- A change leaves other keys unlogged. -/
theorem CreditChange.unlogged (h : CreditChange user n key ws db) (hfits : locking.fitsAll ws db)
    {k : String} (hk : key ≠ some k) (hu : CreditsService.Unlogged k db) :
    CreditsService.Unlogged k (postgres.applyAll ws db) := by
  obtain ⟨log, hlog, -, -, hkey⟩ := h.logged hfits
  intro row hrow
  rw [hlog, List.mem_append, List.mem_singleton] at hrow
  rcases hrow with hrow | rfl
  · exact hu row hrow
  · rw [hkey]
    exact hk

/-- What is logged fits its column. -/
theorem CreditChange.inRange (h : CreditChange user n key ws db) (hv : schema.Valid db)
    (hfits : locking.fitsAll ws db) : inInt32 n = true := by
  obtain ⟨log, hlog, -, rfl, -⟩ := h.logged hfits
  have hvalid : schema.Valid (postgres.applyAll ws db) := locking.valid_applyAll hfits hv
  refine hvalid.fits .creditTransactions log ?_
  rw [hlog]
  simp

/-- A change logs its own key. -/
theorem CreditChange.logged_self {k : String} (h : CreditChange user n (some k) ws db)
    (hfits : locking.fitsAll ws db) : CreditsService.Logged k (postgres.applyAll ws db) := by
  obtain ⟨log, hlog, -, -, hkey⟩ := h.logged hfits
  exact ⟨log, by rw [hlog]; simp, hkey⟩

/-- A change of a key that is not logged logs it once. -/
theorem CreditChange.loggedOnce {k : String} (h : CreditChange user n key ws db)
    (hfits : locking.fitsAll ws db) (hkey : ∀ k, key = some k → CreditsService.Unlogged k db)
    (honce : LoggedOnce k db) : LoggedOnce k (postgres.applyAll ws db) := by
  obtain ⟨log, hlog, -, -, hk⟩ := h.logged hfits
  rw [LoggedOnce, hlog, List.filter_append, List.length_append]
  by_cases he : key = some k
  · have hnone : (db .creditTransactions).filter (·.idempotencyKey = some k) = [] := by
      simpa [List.filter_eq_nil_iff, CreditsService.Unlogged] using hkey k he
    rw [hnone]
    exact Nat.le_trans (by simpa using List.length_filter_le _ [log]) (by simp)
  · have hnone : [log].filter (·.idempotencyKey = some k) = [] := by simp [hk, he]
    rw [hnone]
    exact honce

theorem loggedOnce_of_unlogged {k : String} (h : CreditsService.Unlogged k db) :
    LoggedOnce k db := by
  have hnone : (db .creditTransactions).filter (·.idempotencyKey = some k) = [] := by
    simpa [List.filter_eq_nil_iff, CreditsService.Unlogged] using h
  rw [LoggedOnce, hnone]
  exact Nat.zero_le 1

/-- A key that is logged, and at most once, is logged exactly once. -/
theorem LoggedOnce.exactly {k : String} (h : LoggedOnce k db) (hlogged : CreditsService.Logged k db) :
    ((db .creditTransactions).filter (·.idempotencyKey = some k)).length = 1 := by
  obtain ⟨row, hrow, hk⟩ := hlogged
  have hmem : row ∈ (db .creditTransactions).filter (·.idempotencyKey = some k) :=
    List.mem_filter.mpr ⟨hrow, decide_eq_true hk⟩
  exact Nat.le_antisymm h (List.length_pos_of_mem hmem)

end Books

end PaymentBilling

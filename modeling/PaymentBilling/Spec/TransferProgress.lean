import PaymentBilling.Spec.Accounts
import PaymentBilling.Spec.LedgerProgress

/-!
# Spec.TransferProgress

When a transfer between two accounts goes through: its amount fits an entry and
both balances have room for it, an account that does not exist counting as one
with the balance 0.
-/

namespace PaymentBilling

open Relational Transact

/-- The entries that move `amount` from one account to another. -/
def pairEntries (debit credit : String) (amount : Js) : List LedgerEntryInput :=
  [⟨debit, .DEBIT, amount⟩, ⟨credit, .CREDIT, amount⟩]

/-- The account of type `type` of `user` has room for an entry. -/
def HasRoom (user : String) (type : LedgerAccountType) (entryType : LedgerEntryType) (n : Int)
    (db : Data) : Prop :=
  inInt32 (accountBalance user type db + entryChange type entryType n) = true

section Room

variable {db : Data} {user : String} {type : LedgerAccountType} {id : String} {a : LedgerAccount}

/-- The account that is found is the one that there is. -/
theorem HasAccount.balance_eq (hv : schema.Valid db) (h : HasAccount id user type db)
    (ha : a ∈ db .ledgerAccounts) (hid : a.id = id) :
    accountBalance user type db = a.balance ∧ a.accountType = type := by
  obtain ⟨account, hfind, huser, htype⟩ := h
  obtain rfl : account = a :=
    hv.eq_of_id (Schema.mem_of_find hfind) ha ((Schema.id_of_find hfind).trans hid.symm)
  have hby := hv.findBy_of_mem (k := .userAccount user type) ha (by simp [schema, huser, htype])
  rw [accountBalance, hby]
  exact ⟨rfl, htype⟩

/-- Every balance fits its column, also that of an account that is not there. -/
theorem accountBalance_inRange (hv : schema.Valid db) (user : String) (type : LedgerAccountType) :
    inInt32 (accountBalance user type db) = true := by
  rw [accountBalance]
  cases h : schema.findBy .ledgerAccounts (.userAccount user type) db with
  | none => rfl
  | some account => exact hv.fits .ledgerAccounts account (Schema.mem_of_findBy h)

/-- There is always room for nothing. -/
theorem hasRoom_zero {entryType : LedgerEntryType} (hv : schema.Valid db) :
    HasRoom user type entryType 0 db := by
  have hzero : entryChange type entryType 0 = 0 := by
    cases type <;> cases entryType <;> rfl
  rw [HasRoom, hzero, Int.add_zero]
  exact accountBalance_inRange hv user type

/-- Two entries fit if their accounts have room for them. -/
theorem balancesFit_pair {debit credit debitUser creditUser : String}
    {debitType creditType : LedgerAccountType} {amount : Js} (hv : schema.Valid db)
    (hdebit : HasAccount debit debitUser debitType db)
    (hcredit : HasAccount credit creditUser creditType db) (hne : debitType ≠ creditType)
    (hroom : HasRoom debitUser debitType .DEBIT amount.whole db)
    (hroom' : HasRoom creditUser creditType .CREDIT amount.whole db) :
    BalancesFit (pairEntries debit credit amount) db := by
  intro done hdone a ha
  have hfits : inInt32 a.balance = true := hv.fits .ledgerAccounts a ha
  have hfirst : debit = a.id →
      inInt32 (a.balance + entryChange a.accountType .DEBIT amount.whole) = true := by
    intro hid
    obtain ⟨hbalance, htype⟩ := hdebit.balance_eq hv ha hid.symm
    rw [← hbalance, htype]
    exact hroom
  have hsecond : credit = a.id →
      inInt32 (a.balance + entryChange a.accountType .CREDIT amount.whole) = true := by
    intro hid
    obtain ⟨hbalance, htype⟩ := hcredit.balance_eq hv ha hid.symm
    rw [← hbalance, htype]
    exact hroom'
  -- the two accounts differ, so at most one of the entries counts
  have hdistinct : ¬(debit = a.id ∧ credit = a.id) := fun ⟨hd, hc⟩ =>
    hne ((hdebit.balance_eq hv ha hd.symm).2.symm.trans (hcredit.balance_eq hv ha hc.symm).2)
  rcases List.prefix_cons_iff.mp hdone with rfl | ⟨done, rfl, hrest⟩
  · rw [inputChange_nil, Int.add_zero]
    exact hfits
  · rcases List.prefix_cons_iff.mp hrest with rfl | ⟨done, rfl, hnil⟩
    · rw [inputChange_cons, inputChange_nil]
      split
      · next hid => simpa using hfirst hid
      · simpa using hfits
    · obtain rfl := List.prefix_nil.mp hnil
      rw [inputChange_cons, inputChange_cons, inputChange_nil]
      by_cases hd : debit = a.id
      · rw [if_pos hd, if_neg fun hc => hdistinct ⟨hd, hc⟩]
        simpa using hfirst hd
      · rw [if_neg hd]
        by_cases hc : credit = a.id
        · rw [if_pos hc]
          simpa using hsecond hc
        · rw [if_neg hc]
          simpa using hfits

/-- A transfer between two accounts can be posted if they have room for it. -/
theorem postable_pair {debit credit debitUser creditUser : String}
    {debitType creditType : LedgerAccountType} {n : Int} (hv : schema.Valid db)
    (hdebit : HasAccount debit debitUser debitType db)
    (hcredit : HasAccount credit creditUser creditType db) (hne : debitType ≠ creditType)
    (hpos : 0 < n) (hn : inInt32 n = true) (hroom : HasRoom debitUser debitType .DEBIT n db)
    (hroom' : HasRoom creditUser creditType .CREDIT n db) :
    Postable (pairEntries debit credit (.int n)) db := by
  refine ⟨Nat.le_refl 2, ?_, rfl, ?_, ?_⟩
  · simpa [pairEntries, Js.Payable] using ⟨hpos, hn⟩
  · obtain ⟨account, hfind, -⟩ := hdebit
    obtain ⟨account', hfind', -⟩ := hcredit
    simpa [pairEntries] using ⟨⟨account, hfind⟩, account', hfind'⟩
  · rw [← Js.whole_int n] at hroom hroom'
    exact balancesFit_pair hv hdebit hcredit hne hroom hroom'

end Room

/-! ## What a committed transfer tells -/

section Committed

variable {x : Transfer} {txn : LedgerTransaction} {ws : List RowWrite} {db : Data}

/-- The users of the accounts of a transfer existed before it. -/
theorem hasUser_of_transferred (h : Transferred x txn ws db) (hv : schema.Valid db)
    (hfits : locking.fitsAll ws db) :
    ∃ user₁ user₂, x.firstUser = .str user₁ ∧ x.secondUser = .str user₂ ∧ HasUser user₁ db ∧
      HasUser user₂ db := by
  have hv' : schema.Valid (postgres.applyAll ws db) := locking.valid_applyAll hfits hv
  have hknown : ∀ {id user type}, HasAccount id user type (postgres.applyAll ws db) →
      HasUser user db := by
    intro id user type haccount
    obtain ⟨account, hfind, huser, -⟩ := haccount
    have hexists := hasUser_of_account hv' (Schema.mem_of_find hfind)
    rw [huser, HasUser, Schema.find, h.other (by decide)] at hexists
    exact hexists
  obtain ⟨user₁, user₂, _, _, _, _, hu₁, hu₂, -, -, hacc₁, hacc₂, -⟩ := h.split
  exact ⟨user₁, user₂, hu₁, hu₂, hknown hacc₁, hknown hacc₂⟩

/-- The amounts of a transfer that is new are positive and fit their column. -/
theorem amounts_of_transferred {slots : List Slot} (h : Transferred x txn ws db)
    (hv : schema.Valid db) (hfits : locking.fitsAll ws db)
    (hfresh : ∀ k, x.key = some k → ∀ t ∈ db .ledgerTransactions, t.idempotencyKey ≠ some k)
    (hslots : x.HasSlots slots) : ∀ slot ∈ slots, 0 < slot.amount ∧ inInt32 slot.amount = true := by
  have hv' : schema.Valid (postgres.applyAll ws db) := locking.valid_applyAll hfits hv
  obtain ⟨_, _, _, _, opened, recorded, hu₁, hu₂, rfl, hopens, hacc₁, hacc₂, hrecord⟩ := h.split
  rcases hrecord with ⟨-, htxn, k, hk, htk⟩ | ⟨lines, hp, -, hlines⟩
  · have hmem : txn ∈ postgres.applyAll opened db .ledgerTransactions := Schema.mem_of_find htxn
    rw [hopens.applyAll_of_ne (by decide)] at hmem
    exact (hfresh k hk txn hmem htk).elim
  · intro slot hslot
    obtain ⟨e, he, hfill⟩ := exists_fill (hslots _ _ _ _ _ lines hu₁ hu₂ hacc₁ hacc₂ hlines) hslot
    rw [← hfill.amount]
    refine ⟨hp.balanced.positive e he, hv'.fits .ledgerEntries e ?_⟩
    rw [postgres.applyAll_append, hp.entries]
    exact List.mem_append_right _ he

/-- The two accounts of a transfer that is new had room for it. -/
theorem room_of_transferred {s₁ s₂ : Slot} (h : Transferred x txn ws db) (hv : schema.Valid db)
    (hfits : locking.fitsAll ws db)
    (hfresh : ∀ k, x.key = some k → ∀ t ∈ db .ledgerTransactions, t.idempotencyKey ≠ some k)
    (hslots : x.HasSlots [s₁, s₂]) (hne : s₁.type ≠ s₂.type) :
    HasRoom s₁.user s₁.type s₁.entryType s₁.amount db ∧
      HasRoom s₂.user s₂.type s₂.entryType s₂.amount db := by
  have hv' : schema.Valid (postgres.applyAll ws db) := locking.valid_applyAll hfits hv
  rcases h.posted hv hfits with hunposted | ⟨-, hposted⟩
  · obtain ⟨k, hk, t, ht, htk⟩ := hunposted.known
    exact (hfresh k hk t ht htk).elim
  · have hbalance := (hposted _ hslots).balance
    constructor
    · have hroom := accountBalance_inRange hv' s₁.user s₁.type
      rw [hbalance, slotTotal_cons, slotTotal_cons, if_pos ⟨rfl, rfl⟩,
        if_neg fun hsame => hne hsame.2.symm] at hroom
      simpa [HasRoom, slotTotal, Slot.change] using hroom
    · have hroom := accountBalance_inRange hv' s₂.user s₂.type
      rw [hbalance, slotTotal_cons, slotTotal_cons, if_neg fun hsame => hne hsame.2,
        if_pos ⟨rfl, rfl⟩] at hroom
      simpa [HasRoom, slotTotal, Slot.change] using hroom

end Committed

/-! ## Going through -/

/-- Nothing but accounts without a balance has been opened. -/
structure Opened (v v' : Data) : Prop where
  valid : schema.Valid v'
  le : schema.le v v'
  balance : ∀ user type, accountBalance user type v' = accountBalance user type v
  other : ∀ t ≠ Table.ledgerAccounts, v' t = v t

theorem Opened.trans {v v' v'' : Data} (h : Opened v v') (h' : Opened v' v'') : Opened v v'' where
  valid := h'.valid
  le := locking.le_trans h.le h'.le
  balance user type := (h'.balance user type).trans (h.balance user type)
  other t ht := (h'.other t ht).trans (h.other t ht)

/-- An account that is found or opened leaves the rest alone. -/
theorem opened_of_upsert {v : Data} {ws : List RowWrite} (hv : schema.Valid (postgres.applyAll ws v))
    (hfits : locking.fitsAll ws v)
    (h : ws = [] ∨ ∃ row : LedgerAccount, row.balance = 0 ∧ ws = [.insert .ledgerAccounts row]) :
    Opened v (postgres.applyAll ws v) := by
  have hopens : Opens ws := by
    rcases h with rfl | ⟨row, hbal, rfl⟩
    · exact fun w hw => nomatch hw
    · exact fun w hw => ⟨row, hbal, List.mem_singleton.mp hw⟩
  exact ⟨hv, locking.le_applyAll _ _, hopens.accountBalance hfits, fun t ht => hopens.applyAll_of_ne ht⟩

/-- The key of a ledger transaction is taken. -/
def KeyTaken (key : String) (db : Data) : Prop :=
  ∃ t, schema.findBy .ledgerTransactions (.idempotencyKey key) db = some t

theorem KeyTaken.mono {db db' : Data} {key : String} (h : KeyTaken key db) (hv : schema.Valid db)
    (hv' : schema.Valid db') (hle : schema.le db db') : KeyTaken key db' := by
  obtain ⟨t, ht⟩ := h
  have hmem : t ∈ db' .ledgerTransactions := mem_of_le hv hle (fun _ => rfl) (Schema.mem_of_findBy ht)
  exact ⟨t, hv'.findBy_of_mem hmem (Schema.key_of_findBy ht)⟩

/-- A key under which a transaction is recorded is taken. -/
theorem Unposted.keyTaken {db db' : Data} {key : String} (h : Unposted (some key) db db') (hv : schema.Valid db) :
    KeyTaken key db := by
  obtain ⟨k, hk, t, ht, htk⟩ := h.known
  obtain rfl := Option.some.inj hk
  exact ⟨t, hv.findBy_of_mem ht (by simp [schema, htk])⟩

theorem Opened.keyTaken {v v' : Data} {key : String} (h : Opened v v') :
    KeyTaken key v' ↔ KeyTaken key v := by
  rw [KeyTaken, KeyTaken, Schema.findBy, h.other _ (by decide), Schema.findBy]

theorem Opened.hasRoom {v v' : Data} {user : String} {type : LedgerAccountType}
    {entryType : LedgerEntryType} {n : Int} (h : Opened v v') :
    HasRoom user type entryType n v' ↔ HasRoom user type entryType n v := by
  rw [HasRoom, h.balance, HasRoom]

namespace LedgerService

variable {W : Env → Prop} {v : Data}

/-- An account is found, or opened for a user who exists. -/
theorem goes_accountUpsert {user : String} {type : LedgerAccountType} (hv : schema.Valid v)
    (h : HasUser user v) :
    postgres.Goes (LocksOf ledgerTables) W
      (do let account ← query (.ledgerAccountUpsert (.str user) type); return account.id)
      (fun id v' => HasAccount id user type v' ∧ Opened v v') v := by
  have hgoes : postgres.Goes (LocksOf ledgerTables) W
      (do let account ← query (.ledgerAccountUpsert (.str user) type); return account.id)
      (fun _ _ => True) v := by
    refine Engine.goes_bind (goes_query (by simp [WritesIn, Stmt.writes, ledgerTables]) rfl
      (fun env _ => ledgerAccountUpsert_ok h) fun env account ws _ _ => ?_)
    exact Engine.goes_pure trivial
  refine (hgoes.does hv (does_accountUpsert _ (.str user) type)).mono fun id v' hr => ?_
  obtain ⟨-, hv', ws, rfl, hfits, user', huser, hws, haccount⟩ := hr
  obtain rfl := Js.str.inj huser
  exact ⟨haccount, opened_of_upsert hv' hfits hws⟩

/-- A transaction is recorded if its key is taken or its entries can be posted. -/
theorem goes_recordTransaction {userId : Js} {description key : String}
    {entries : List LedgerEntryInput} {status : LedgerTransactionStatus} {metadata : Metadata}
    (hv : schema.Valid v) (hne : key ≠ "")
    (h : KeyTaken key v ∨ OwnerKnown userId v ∧ Postable entries v) :
    postgres.Goes (LocksOf ledgerTables) W
      (recordTransaction userId description entries status metadata true (some key))
      (fun _ _ => True) v := by
  have hkey : (some key).filter (fun k => k ≠ "") = some key :=
    Option.filter_some_pos (decide_eq_true hne)
  rw [recordTransaction, hkey]
  refine Engine.goes_bind (goes_query (by simp [WritesIn, Stmt.writes]) rfl
    (fun env _ => ⟨_, _, ledgerTransactionFindFirst_ok key⟩) fun env found ws _ hx => ?_)
  obtain ⟨rfl, rfl⟩ := exec_ledgerTransactionFindFirst hx
  cases hfind : schema.findBy .ledgerTransactions (.idempotencyKey key) v with
  | some t => exact Engine.goes_pure trivial
  | none =>
      have hnot : ¬KeyTaken key v := by
        rintro ⟨t, ht⟩
        rw [hfind] at ht
        cases ht
      obtain ⟨howner, hpost⟩ := h.resolve_left hnot
      have hvalid := validate_of_balanced hpost.two hpost.payable hpost.even
      show postgres.Goes _ W (validateAndRecord ..) _ v
      rw [validateAndRecord, hvalid]
      refine goes_executeRecord hv howner (fun k hk => ?_) hpost
      rw [← Option.some.inj hk]
      exact hfind

/-- A transfer between the accounts of two users who exist goes through if its key
is taken or its entries can be posted. -/
theorem goes_transfer {user₁ user₂ key description : String} {type₁ type₂ : LedgerAccountType}
    {userId : Js} {entries : String → String → List LedgerEntryInput} {status : LedgerTransactionStatus}
    {metadata : Metadata} (hv : schema.Valid v) (hne : key ≠ "") (h₁ : HasUser user₁ v)
    (h₂ : HasUser user₂ v)
    (h : KeyTaken key v ∨ ∀ id₁ id₂ v', Opened v v' → HasAccount id₁ user₁ type₁ v' →
      HasAccount id₂ user₂ type₂ v' → OwnerKnown userId v' ∧ Postable (entries id₁ id₂) v') :
    postgres.Goes (LocksOf ledgerTables) W
      ((query (.ledgerAccountUpsert (.str user₁) type₁) >>= fun account => pure account.id) >>=
        fun id₁ => (query (.ledgerAccountUpsert (.str user₂) type₂) >>= fun account => pure account.id) >>=
          fun id₂ => recordTransaction userId description (entries id₁ id₂) status metadata true (some key))
      (fun _ _ => True) v := by
  refine Engine.goes_bind ((goes_accountUpsert hv h₁).mono fun id₁ v₁ hr₁ => ?_)
  obtain ⟨hacc₁, hopened₁⟩ := hr₁
  have h₂' : HasUser user₂ v₁ := exists_find_mono hopened₁.le h₂
  refine Engine.goes_bind ((goes_accountUpsert hopened₁.valid h₂').mono fun id₂ v₂ hr₂ => ?_)
  obtain ⟨hacc₂, hopened₂⟩ := hr₂
  have hopened := hopened₁.trans hopened₂
  exact goes_recordTransaction hopened.valid hne (h.imp hopened.keyTaken.mpr fun hpost =>
    hpost id₁ id₂ v₂ hopened (hacc₁.mono hopened₂.le) hacc₂)

end LedgerService

/-- The user of an account owns its transactions. -/
theorem ownerKnown_of_hasUser {user : String} {v : Data} (h : HasUser user v) :
    OwnerKnown (.str user) v := by
  refine ⟨some user, rfl, fun user' hu => ?_⟩
  obtain rfl := Option.some.inj hu
  exact h

end PaymentBilling

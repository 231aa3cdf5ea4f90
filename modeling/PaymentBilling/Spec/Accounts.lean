import PaymentBilling.Spec.Transfer

/-!
# Spec.Accounts

What a transfer does to the accounts of users.

A `Slot` is an entry that is told by whose account it is on, not by an
identifier.  A transfer fills its slots with the entries of a new transaction
and moves the balances accordingly (`Posted`), or changes no balance at all.
-/

namespace PaymentBilling

open Relational Transact

/-- An entry on the account of type `type` of `user`. -/
structure Slot where
  user : String
  type : LedgerAccountType
  entryType : LedgerEntryType
  amount : Int

/-- What a slot adds to its account. -/
def Slot.change (slot : Slot) : Int := entryChange slot.type slot.entryType slot.amount

/-- What slots add to the account of type `type` of `user`. -/
def slotTotal (user : String) (type : LedgerAccountType) (slots : List Slot) : Int :=
  ((slots.filter fun slot => slot.user = user ∧ slot.type = type).map Slot.change).sum

theorem slotTotal_cons (user : String) (type : LedgerAccountType) (slot : Slot)
    (slots : List Slot) :
    slotTotal user type (slot :: slots) =
      (if slot.user = user ∧ slot.type = type then slot.change else 0) +
        slotTotal user type slots := by
  by_cases h : slot.user = user ∧ slot.type = type <;> simp [slotTotal, h]

theorem slotTotal_append (user : String) (type : LedgerAccountType) (slots slots' : List Slot) :
    slotTotal user type (slots ++ slots') =
      slotTotal user type slots + slotTotal user type slots' := by
  simp only [slotTotal, List.filter_append, List.map_append, List.sum_append]

/-- An entry fills a slot. -/
structure Fills (db : Data) (slot : Slot) (e : LedgerEntry) : Prop where
  entryType : e.entryType = slot.entryType
  amount : e.amount = slot.amount
  account : HasAccount e.accountId slot.user slot.type db

/-- The balance of the account of type `type` of `user`; 0 without one. -/
def accountBalance (user : String) (type : LedgerAccountType) (db : Data) : Int :=
  ((schema.findBy .ledgerAccounts (.userAccount user type) db).map (·.balance)).getD 0

/-- What some entries add to the account of type `type` of `user`. -/
def addedTo (user : String) (type : LedgerAccountType) (entries : List LedgerEntry) (db : Data) :
    Int :=
  ((entries.filter fun e => (schema.find .ledgerAccounts e.accountId db).any fun a =>
    a.userId = user && a.accountType = type).map fun e =>
      entryChange type e.entryType e.amount).sum

section Slots

variable {db db' : Data} {slots : List Slot} {entries : List LedgerEntry} {lines : List Line}

theorem accountBalance_of_same {user : String} {type : LedgerAccountType}
    (h : db' .ledgerAccounts = db .ledgerAccounts) :
    accountBalance user type db' = accountBalance user type db := by
  rw [accountBalance, Schema.findBy, h, accountBalance, Schema.findBy]

theorem Fills.mono {slot : Slot} {e : LedgerEntry} (hle : locking.le db db') (h : Fills db slot e) :
    Fills db' slot e := ⟨h.entryType, h.amount, h.account.mono hle⟩

theorem fills_mono (hle : locking.le db db') (h : List.Forall₂ (Fills db) slots entries) :
    List.Forall₂ (Fills db') slots entries := h.imp fun _ _ hf => hf.mono hle

/-- Every slot is filled. -/
theorem exists_fill (h : List.Forall₂ (Fills db) slots entries) {slot : Slot} (hslot : slot ∈ slots) :
    ∃ e ∈ entries, Fills db slot e := by
  induction h with
  | nil => cases hslot
  | @cons _ e _ _ hfill _ ih =>
      cases hslot with
      | head => exact ⟨e, .head _, hfill⟩
      | tail _ hslot =>
          obtain ⟨e', he', hfill'⟩ := ih hslot
          exact ⟨e', .tail _ he', hfill'⟩

/-- Entries add what their slots say. -/
theorem addedTo_eq (user : String) (type : LedgerAccountType)
    (h : List.Forall₂ (Fills db) slots entries) :
    addedTo user type entries db = slotTotal user type slots := by
  induction h with
  | nil => rfl
  | @cons slot e slots entries hfill _ ih =>
      obtain ⟨account, hf, hu, ht⟩ := hfill.account
      have hsame : ((schema.find .ledgerAccounts e.accountId db).any fun a =>
          a.userId = user && a.accountType = type) =
          decide (slot.user = user ∧ slot.type = type) := by
        rw [hf, Option.any_some, hu, ht, Bool.decide_and]
      rw [slotTotal_cons, ← ih, addedTo, addedTo, List.filter_cons, hsame]
      by_cases hslot : slot.user = user ∧ slot.type = type
      · rw [if_pos (decide_eq_true hslot), if_pos hslot, List.map_cons, List.sum_cons, Slot.change,
          hfill.entryType, hfill.amount, hslot.2]
      · rw [if_neg (by simpa using hslot), if_neg hslot, Int.zero_add]

/-- A line fills the slot of its input. -/
theorem fills_of_lineOf {id user : String} {type : LedgerAccountType} {entryType : LedgerEntryType}
    {n : Int} {line : Line} (h : LineOf ⟨id, entryType, .int n⟩ line)
    (haccount : HasAccount id user type db) : Fills db ⟨user, type, entryType, n⟩ line.entry where
  entryType := h.entryType
  amount := (Js.int_inj.mp h.amount).symm
  account := by
    rw [h.accountId]
    exact haccount

theorem fills_pair {id id' user user' : String} {type type' : LedgerAccountType}
    {entryType entryType' : LedgerEntryType} {n n' : Int}
    (h : List.Forall₂ LineOf [⟨id, entryType, .int n⟩, ⟨id', entryType', .int n'⟩] lines)
    (haccount : HasAccount id user type db) (haccount' : HasAccount id' user' type' db) :
    List.Forall₂ (Fills db) [⟨user, type, entryType, n⟩, ⟨user', type', entryType', n'⟩]
      (lines.map Line.entry) := by
  cases h with
  | cons h₁ h =>
      cases h with
      | cons h₂ h =>
          cases h
          exact .cons (fills_of_lineOf h₁ haccount) (.cons (fills_of_lineOf h₂ haccount') .nil)

/-- Two accounts of one type of one user are the same. -/
theorem HasAccount.id_eq {id id' user : String} {type : LedgerAccountType} (hv : schema.Valid db)
    (h : HasAccount id user type db) (h' : HasAccount id' user type db) : id = id' := by
  obtain ⟨account, hf, hu, ht⟩ := h
  obtain ⟨account', hf', hu', ht'⟩ := h'
  have heq : account = account' :=
    hv.eq_of_key (k := .userAccount user type) (Schema.mem_of_find hf) (Schema.mem_of_find hf')
      (by simp [schema, hu, ht]) (by simp [schema, hu', ht'])
  have hid : account.id = id := Schema.id_of_find hf
  have hid' : account'.id = id' := Schema.id_of_find hf'
  rw [← hid, ← hid', heq]

/-- Lines move each account by what their slots say. -/
theorem changeOf_eq {id user : String} {type : LedgerAccountType} (hv : schema.Valid db)
    (haccount : HasAccount id user type db)
    (htyped : ∀ line ∈ lines, HasType line.entry.accountId line.type db)
    (h : List.Forall₂ (Fills db) slots (lines.map Line.entry)) :
    changeOf id lines = slotTotal user type slots := by
  induction lines generalizing slots with
  | nil =>
      cases h
      rfl
  | cons line lines ih =>
      rw [List.forall_mem_cons] at htyped
      cases h with
      | @cons slot _ slots _ hfill h =>
          rw [changeOf_cons, slotTotal_cons, ih htyped.2 h]
          have htype : line.type = slot.type := htyped.1.unique hfill.account.hasType
          by_cases hid : line.entry.accountId = id
          · obtain ⟨account, hf, hu, ht⟩ := haccount
            obtain ⟨account', hf', hu', ht'⟩ := hfill.account
            rw [hid, hf] at hf'
            obtain rfl := Option.some.inj hf'
            rw [if_pos hid, if_pos ⟨hu'.symm.trans hu, ht'.symm.trans ht⟩, Line.change, Slot.change,
              htype, hfill.entryType, hfill.amount]
          · have hslot : ¬(slot.user = user ∧ slot.type = type) := by
              rintro ⟨rfl, rfl⟩
              exact hid (hfill.account.id_eq hv haccount)
            rw [if_neg hid, if_neg hslot]

/-- The balances after a posting. -/
theorem Posting.accountBalance {txn : LedgerTransaction} {ws : List RowWrite}
    (h : Posting txn lines ws db) (hv : schema.Valid db) (hfits : locking.fitsAll ws db)
    (hslots : List.Forall₂ (Fills (postgres.applyAll ws db)) slots (lines.map Line.entry))
    (user : String) (type : LedgerAccountType) :
    PaymentBilling.accountBalance user type (postgres.applyAll ws db) =
      PaymentBilling.accountBalance user type db + slotTotal user type slots := by
  have hv' : schema.Valid (postgres.applyAll ws db) := locking.valid_applyAll hfits hv
  have hfound : schema.findBy .ledgerAccounts (.userAccount user type) (postgres.applyAll ws db) =
      (schema.findBy .ledgerAccounts (.userAccount user type) db).map (addLines lines) := by
    rw [Schema.findBy, h.accounts, List.find?_map, Schema.findBy]
    rfl
  rw [PaymentBilling.accountBalance, hfound, PaymentBilling.accountBalance]
  cases hf : schema.findBy .ledgerAccounts (.userAccount user type) db with
  | none =>
      -- no slot is on an account that does not exist
      have hzero : slotTotal user type slots = 0 := by
        have hnone : ∀ slot ∈ slots, ¬(slot.user = user ∧ slot.type = type) := by
          rintro slot hslot ⟨rfl, rfl⟩
          obtain ⟨e, -, hfill⟩ := exists_fill hslots hslot
          obtain ⟨account, hfa, hu, ht⟩ := hfill.account
          have hby : schema.findBy .ledgerAccounts (.userAccount slot.user slot.type)
              (postgres.applyAll ws db) = some account :=
            hv'.findBy_of_mem (Schema.mem_of_find hfa) (by simp [schema, hu, ht])
          rw [hfound, hf] at hby
          cases hby
        have hfilter : (slots.filter fun slot => slot.user = user ∧ slot.type = type) = [] := by
          rw [List.filter_eq_nil_iff]
          exact fun slot hslot => by simpa using hnone slot hslot
        rw [slotTotal, hfilter]
        rfl
      rw [hzero]
      rfl
  | some account =>
      have hk := Schema.key_of_findBy hf
      simp only [schema, List.mem_singleton, UniqueKey.userAccount.injEq] at hk
      have haccount : HasAccount account.id user type (postgres.applyAll ws db) := by
        refine HasAccount.mono (locking.le_applyAll ws db) ⟨account, ?_, hk.1.symm, hk.2.symm⟩
        exact hv.find_of_mem (Schema.mem_of_findBy hf)
      rw [← changeOf_eq hv' haccount h.typed hslots]
      rfl

/-- Opening accounts moves no balance. -/
theorem Opens.accountBalance {ws : List RowWrite} (h : Opens ws) (hfits : locking.fitsAll ws db)
    (user : String) (type : LedgerAccountType) :
    PaymentBilling.accountBalance user type (postgres.applyAll ws db) =
      PaymentBilling.accountBalance user type db := by
  induction ws generalizing db with
  | nil => rfl
  | cons w ws ih =>
      obtain ⟨hw, hws⟩ := List.forall_mem_cons.mp h
      obtain ⟨row, hbal, rfl⟩ := hw
      rw [Engine.applyAll_cons, ih hws hfits.2]
      show ((schema.findBy .ledgerAccounts (.userAccount user type)
        (schema.apply (.insert .ledgerAccounts row) db)).map (·.balance)).getD 0 = _
      rw [Schema.findBy_insert, PaymentBilling.accountBalance]
      cases hf : schema.findBy .ledgerAccounts (.userAccount user type) db with
      | some account => rfl
      | none =>
          rw [Option.none_or]
          split
          · exact hbal
          · rfl

end Slots

/-! ## Transfers -/

/-- A new transaction under `key` fills `slots` and moves the balances. -/
structure Posted (key : Option String) (slots : List Slot) (txn : LedgerTransaction) (db db' : Data) :
    Prop where
  transactions : db' .ledgerTransactions = db .ledgerTransactions ++ [txn]
  key_eq : txn.idempotencyKey = key
  fresh : ∀ k, key = some k → ∀ t ∈ db .ledgerTransactions, t.idempotencyKey ≠ some k
  filled : List.Forall₂ (Fills db') slots (entriesOf txn.id db')
  entries : ∀ t ∈ db .ledgerTransactions, entriesOf t.id db' = entriesOf t.id db
  balance : ∀ user type, accountBalance user type db' =
    accountBalance user type db + slotTotal user type slots

/-- The key is known: no transaction and no balance changes. -/
structure Unposted (key : Option String) (db db' : Data) : Prop where
  transactions : db' .ledgerTransactions = db .ledgerTransactions
  known : ∃ k, key = some k ∧ ∃ t ∈ db .ledgerTransactions, t.idempotencyKey = some k
  entries : ∀ id, entriesOf id db' = entriesOf id db
  balance : ∀ user type, accountBalance user type db' = accountBalance user type db

/-- The entries of a transfer fill its slots, whatever the accounts are
called. -/
def Transfer.HasSlots (x : Transfer) (slots : List Slot) : Prop :=
  ∀ db user₁ user₂ id₁ id₂ lines, x.firstUser = .str user₁ → x.secondUser = .str user₂ →
    HasAccount id₁ user₁ x.firstType db → HasAccount id₂ user₂ x.secondType db →
    List.Forall₂ LineOf (x.entries id₁ id₂) lines →
    List.Forall₂ (Fills db) slots (lines.map Line.entry)

/-- The key of a transfer is known, or it is new and the transfer is posted. -/
theorem Transferred.posted {x : Transfer} {txn : LedgerTransaction} {ws : List RowWrite} {db : Data}
    (h : Transferred x txn ws db) (hv : schema.Valid db) (hfits : locking.fitsAll ws db) :
    Unposted x.key db (postgres.applyAll ws db) ∨
      (∀ k, x.key = some k → ∀ t ∈ db .ledgerTransactions, t.idempotencyKey ≠ some k) ∧
        ∀ slots, x.HasSlots slots → Posted x.key slots txn db (postgres.applyAll ws db) := by
  obtain ⟨user₁, user₂, id₁, id₂, opened, recorded, hu₁, hu₂, rfl, hopens, hacc₁, hacc₂, hrecord⟩ :=
    h.split
  have hfits' := locking.fitsAll_append.mp hfits
  have hold : postgres.applyAll opened db .ledgerTransactions = db .ledgerTransactions :=
    hopens.applyAll_of_ne (by decide)
  rcases hrecord with ⟨rfl, htxn, hk⟩ | ⟨lines, hp, hkey, hlines⟩
  · refine .inl ?_
    rw [List.append_nil] at hfits ⊢
    have hmem : txn ∈ postgres.applyAll opened db .ledgerTransactions := Schema.mem_of_find htxn
    rw [hold] at hmem
    obtain ⟨k, hxk, hk⟩ := hk
    refine ⟨hold, ⟨k, hxk, txn, hmem, hk⟩, fun id => ?_, hopens.accountBalance hfits⟩
    rw [entriesOf, hopens.applyAll_of_ne (by decide), entriesOf]
  · refine .inr ?_
    rw [postgres.applyAll_append] at hacc₁ hacc₂ ⊢
    have hv₁ : schema.Valid (postgres.applyAll opened db) := locking.valid_applyAll hfits'.1 hv
    have hfresh : ∀ k, x.key = some k → ∀ t ∈ db .ledgerTransactions,
        t.idempotencyKey ≠ some k := by
      intro k hxk t ht he
      rw [← hold] at ht
      refine Schema.ne_of_findBy_none ((hp.fresh hfits'.2).2 k (hkey.trans hxk)) t ht ?_
      simp [schema, he]
    refine ⟨hfresh, fun slots hslots => ?_⟩
    have hfilled := hslots _ _ _ _ _ lines hu₁ hu₂ hacc₁ hacc₂ hlines
    refine ⟨by rw [hp.transactions, hold], hkey, hfresh, ?_, fun t ht => ?_, fun user type => ?_⟩
    · rw [hp.entriesOf_self hv₁ hfits'.2]
      exact hfilled
    · rw [← hold] at ht
      rw [hp.entriesOf_of_ne (hp.ne_of_mem hfits'.2 ht), entriesOf,
        hopens.applyAll_of_ne (by decide), entriesOf]
    · rw [hp.accountBalance hv₁ hfits'.2 hfilled, hopens.accountBalance hfits'.1]

end PaymentBilling

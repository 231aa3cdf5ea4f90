import PaymentBilling.Bookkeeping
import PaymentBilling.Services.Ledger
import PaymentBilling.Spec.Credits

/-!
# Spec.Postings

What a recorded transaction writes, and what that does to the books.

A `Posting` is the row of a transaction followed by its lines: each inserts an
entry and moves the balance of its account.
-/

namespace PaymentBilling

open Relational Transact

/-- The tables of the ledger. -/
def ledgerTables : List Table := [.ledgerAccounts, .ledgerTransactions, .ledgerEntries]

/-- An entry together with the type of its account. -/
structure Line where
  type : LedgerAccountType
  entry : LedgerEntry

/-- What an entry adds to an account of type `type`. -/
def entryChange (type : LedgerAccountType) (entryType : LedgerEntryType) (amount : Int) : Int :=
  Bookkeeping.signed (LedgerService.isDebitNormal type) (entryType = .DEBIT) amount

/-- What a line adds to its account. -/
def Line.change (line : Line) : Int := entryChange line.type line.entry.entryType line.entry.amount

/-- The writes of a line. -/
def Line.writes (line : Line) : List RowWrite :=
  [.insert .ledgerEntries line.entry, .update .ledgerAccounts line.entry.accountId line.change]

/-- What `lines` add to the account `id`. -/
def changeOf (id : String) (lines : List Line) : Int :=
  ((lines.filter (·.entry.accountId = id)).map Line.change).sum

/-- An account after `lines`. -/
def addLines (lines : List Line) (account : LedgerAccount) : LedgerAccount :=
  { account with balance := account.balance + changeOf account.id lines }

/-- The total of the entries on one side. -/
def sideTotal (side : LedgerEntryType) (entries : List LedgerEntry) : Int :=
  ((entries.filter (·.entryType = side)).map (·.amount)).sum

/-- Debits minus credits of some entries. -/
def netOf (entries : List LedgerEntry) : Int :=
  (entries.map fun e => Bookkeeping.net (e.entryType = .DEBIT) e.amount).sum

/-- The entries of a transaction. -/
def entriesOf (id : String) (db : Data) : List LedgerEntry :=
  (db .ledgerEntries).filter (·.ledgerTransactionId = id)

/-- At least two entries, all positive, with equal debits and credits. -/
structure Balanced (entries : List LedgerEntry) : Prop where
  two : 2 ≤ entries.length
  positive : ∀ e ∈ entries, 0 < e.amount
  even : sideTotal .DEBIT entries = sideTotal .CREDIT entries

/-- The account `id` exists and is of type `type`. -/
def HasType (id : String) (type : LedgerAccountType) (db : Data) : Prop :=
  ∃ account, schema.find .ledgerAccounts id db = some account ∧ account.accountType = type

/-- The writes `ws`, made on `db`, post the transaction `txn` with `lines`. -/
structure Posting (txn : LedgerTransaction) (lines : List Line) (ws : List RowWrite) (db : Data) :
    Prop where
  writes : ws = .insert .ledgerTransactions txn :: lines.flatMap Line.writes
  linked : ∀ line ∈ lines, line.entry.ledgerTransactionId = txn.id
  typed : ∀ line ∈ lines, HasType line.entry.accountId line.type (postgres.applyAll ws db)
  balanced : Balanced (lines.map Line.entry)

section Lines

variable {db db' : Data} {lines : List Line} {id : String} {type : LedgerAccountType}

theorem HasType.mono (hle : locking.le db db') (h : HasType id type db) : HasType id type db' := by
  obtain ⟨account, hf, ht⟩ := h
  obtain ⟨account', hf', hfix⟩ := hle _ _ _ hf
  have htype : account'.accountType = account.accountType := (LedgerAccount.mk.inj hfix).2.2.1
  exact ⟨account', hf', htype.trans ht⟩

/-- Accounts are told apart by their identifiers, and so are their types. -/
theorem HasType.unique {type' : LedgerAccountType} (h : HasType id type db)
    (h' : HasType id type' db) : type = type' := by
  obtain ⟨account, hf, rfl⟩ := h
  obtain ⟨account', hf', rfl⟩ := h'
  rw [hf] at hf'
  rw [Option.some.inj hf']

@[simp] theorem changeOf_nil (id : String) : changeOf id [] = 0 := rfl

theorem addLines_nil (account : LedgerAccount) : addLines [] account = account := by
  simp [addLines]

theorem changeOf_cons (id : String) (line : Line) (lines : List Line) :
    changeOf id (line :: lines) =
      (if line.entry.accountId = id then line.change else 0) + changeOf id lines := by
  by_cases h : line.entry.accountId = id <;> simp [changeOf, h]

theorem applyAll_lines_of_ne {t : Table} (ht : t ≠ .ledgerEntries) (ht' : t ≠ .ledgerAccounts)
    (lines : List Line) (db : Data) :
    postgres.applyAll (lines.flatMap Line.writes) db t = db t := by
  induction lines generalizing db with
  | nil => rfl
  | cons line lines ih =>
      rw [List.flatMap_cons, Engine.applyAll_append, ih, Line.writes, applyAll_pair]
      rw [Schema.apply_of_ne (by simpa [Write.table] using ht'),
        Schema.apply_of_ne (by simpa [Write.table] using ht)]

/-- Lines add their entries. -/
theorem applyAll_lines_entries (lines : List Line) (db : Data) :
    postgres.applyAll (lines.flatMap Line.writes) db .ledgerEntries =
      db .ledgerEntries ++ lines.map Line.entry := by
  induction lines generalizing db with
  | nil => simp
  | cons line lines ih =>
      rw [List.flatMap_cons, Engine.applyAll_append, ih, Line.writes, applyAll_pair]
      rw [Schema.apply_of_ne (by simp [Write.table]), Schema.apply_insert_self]
      simp

/-- Lines move the balances of their accounts, however often each occurs. -/
theorem applyAll_lines_accounts (lines : List Line) (db : Data) :
    postgres.applyAll (lines.flatMap Line.writes) db .ledgerAccounts =
      (db .ledgerAccounts).map (addLines lines) := by
  induction lines generalizing db with
  | nil => exact (List.map_id'' addLines_nil _).symm
  | cons line lines ih =>
      rw [List.flatMap_cons, Engine.applyAll_append, ih, Line.writes, applyAll_pair]
      rw [Schema.apply_update_self, Schema.apply_of_ne (by simp [Write.table]), List.map_map]
      refine List.map_congr_left fun account _ => ?_
      rw [Function.comp_apply]
      by_cases h : line.entry.accountId = account.id
      · have hrev : schema.revise line.entry.accountId line.change account =
            { account with balance := account.balance + line.change } := by
          rw [h]
          exact Schema.revise_self
        rw [hrev]
        simp [addLines, changeOf_cons, h, Int.add_assoc]
      · have hrev : schema.revise (t := .ledgerAccounts) line.entry.accountId line.change account =
            account := Schema.revise_of_ne fun he => h (Eq.symm he)
        rw [hrev]
        simp [addLines, changeOf_cons, h]

theorem find_addLines (id : String) (lines : List Line) (db : Data) :
    schema.find .ledgerAccounts id (postgres.applyAll (lines.flatMap Line.writes) db) =
      (schema.find .ledgerAccounts id db).map (addLines lines) := by
  rw [Schema.find, applyAll_lines_accounts, List.find?_map]
  rfl

end Lines

theorem netOf_eq (entries : List LedgerEntry) :
    netOf entries = sideTotal .DEBIT entries - sideTotal .CREDIT entries := by
  induction entries with
  | nil => rfl
  | cons e entries ih =>
      have hcons : netOf (e :: entries) =
          Bookkeeping.net (e.entryType = .DEBIT) e.amount + netOf entries := by simp [netOf]
      rw [hcons, ih]
      cases he : e.entryType with
      | DEBIT =>
          simp [sideTotal, he, Bookkeeping.net, Bookkeeping.signed]
          omega
      | CREDIT =>
          simp [sideTotal, he, Bookkeeping.net, Bookkeeping.signed]
          omega

/-! ## Postings -/

section Posting

variable {txn : LedgerTransaction} {lines : List Line} {ws : List RowWrite} {db db' : Data}

/-- A posting stays one while its writes fit. -/
theorem Posting.mono (h : Posting txn lines ws db) (hf : locking.fitsAll ws db)
    (hf' : locking.fitsAll ws db') (hle : locking.le db db') : Posting txn lines ws db' where
  writes := h.writes
  linked := h.linked
  typed line hline := (h.typed line hline).mono (locking.applyAll_le hf hf' hle)
  balanced := h.balanced

theorem applyAll_posting (txn : LedgerTransaction) (lines : List Line) (db : Data) :
    postgres.applyAll (.insert .ledgerTransactions txn :: lines.flatMap Line.writes) db =
      postgres.applyAll (lines.flatMap Line.writes)
        (schema.apply (.insert .ledgerTransactions txn) db) := rfl

/-- A posting adds its transaction. -/
theorem Posting.transactions (h : Posting txn lines ws db) :
    postgres.applyAll ws db .ledgerTransactions = db .ledgerTransactions ++ [txn] := by
  rw [h.writes, applyAll_posting, applyAll_lines_of_ne (by decide) (by decide),
    Schema.apply_insert_self]

/-- A posting adds its entries. -/
theorem Posting.entries (h : Posting txn lines ws db) :
    postgres.applyAll ws db .ledgerEntries = db .ledgerEntries ++ lines.map Line.entry := by
  rw [h.writes, applyAll_posting, applyAll_lines_entries,
    Schema.apply_of_ne (by simp [Write.table])]

/-- A posting moves the balances of its accounts. -/
theorem Posting.accounts (h : Posting txn lines ws db) :
    postgres.applyAll ws db .ledgerAccounts = (db .ledgerAccounts).map (addLines lines) := by
  rw [h.writes, applyAll_posting, applyAll_lines_accounts,
    Schema.apply_of_ne (by simp [Write.table])]

theorem Posting.other (h : Posting txn lines ws db) {t : Table} (ht : t ≠ .ledgerTransactions)
    (ht' : t ≠ .ledgerEntries) (ht'' : t ≠ .ledgerAccounts) :
    postgres.applyAll ws db t = db t := by
  rw [h.writes, applyAll_posting, applyAll_lines_of_ne ht' ht'',
    Schema.apply_of_ne (by simpa [Write.table] using ht)]

/-- The transaction of a posting is new. -/
theorem Posting.fresh (h : Posting txn lines ws db) (hf : locking.fitsAll ws db) :
    schema.find .ledgerTransactions txn.id db = none ∧
      ∀ k, txn.idempotencyKey = some k →
        schema.findBy .ledgerTransactions (.idempotencyKey k) db = none := by
  rw [h.writes] at hf
  obtain ⟨-, hid, hkeys, -⟩ := Schema.accepts_insert.mp hf.1
  refine ⟨hid, fun k hk => hkeys _ ?_⟩
  simp [schema, hk]

/-- An entry has its transaction and its account. -/
theorem refs_of_entry {e : LedgerEntry} (hv : schema.Valid db) (he : e ∈ db .ledgerEntries) :
    (∃ t, schema.find .ledgerTransactions e.ledgerTransactionId db = some t) ∧
      ∃ a, schema.find .ledgerAccounts e.accountId db = some a := by
  have href : schema.resolves
      [(.ledgerTransactions, e.ledgerTransactionId), (.ledgerAccounts, e.accountId)] db = true :=
    hv.refs .ledgerEntries e he
  simpa only [Schema.resolves, List.all_cons, List.all_nil, Bool.and_true, Bool.and_eq_true,
    Option.isSome_iff_exists] using href

/-- No entry belongs to a transaction that does not exist. -/
theorem entriesOf_of_find_none {id : String} (hv : schema.Valid db)
    (h : schema.find .ledgerTransactions id db = none) : entriesOf id db = [] := by
  rw [entriesOf, List.filter_eq_nil_iff]
  intro e he hid
  obtain ⟨⟨t, ht⟩, -⟩ := refs_of_entry hv he
  rw [of_decide_eq_true hid, h] at ht
  cases ht

/-- The entries of a posting belong to its transaction. -/
theorem Posting.entriesOf_self (h : Posting txn lines ws db) (hv : schema.Valid db)
    (hf : locking.fitsAll ws db) :
    entriesOf txn.id (postgres.applyAll ws db) = lines.map Line.entry := by
  have hold : (db .ledgerEntries).filter (·.ledgerTransactionId = txn.id) = [] :=
    entriesOf_of_find_none hv (h.fresh hf).1
  have hnew : (lines.map Line.entry).filter (·.ledgerTransactionId = txn.id) =
      lines.map Line.entry := by
    rw [List.filter_eq_self]
    intro e he
    obtain ⟨line, hline, rfl⟩ := List.mem_map.mp he
    exact decide_eq_true (h.linked line hline)
  rw [entriesOf, h.entries, List.filter_append, hold, hnew, List.nil_append]

/-- Other transactions keep their entries. -/
theorem Posting.entriesOf_of_ne (h : Posting txn lines ws db) {id : String} (hid : id ≠ txn.id) :
    entriesOf id (postgres.applyAll ws db) = entriesOf id db := by
  have hnew : (lines.map Line.entry).filter (·.ledgerTransactionId = id) = [] := by
    rw [List.filter_eq_nil_iff]
    intro e he heq
    obtain ⟨line, hline, rfl⟩ := List.mem_map.mp he
    exact hid ((of_decide_eq_true heq).symm.trans (h.linked line hline))
  rw [entriesOf, h.entries, List.filter_append, hnew, List.append_nil, entriesOf]

/-- An existing transaction is not the new one. -/
theorem Posting.ne_of_mem (h : Posting txn lines ws db) (hf : locking.fitsAll ws db)
    {t : LedgerTransaction} (ht : t ∈ db .ledgerTransactions) : t.id ≠ txn.id :=
  Schema.ne_of_find_none (h.fresh hf).1 t ht

end Posting

end PaymentBilling

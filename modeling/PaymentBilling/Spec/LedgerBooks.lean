import PaymentBilling.Spec.Ledger
import PaymentBilling.Spec.OffLedger

/-!
# Spec.LedgerBooks

What transactions do to the ledger, and the books they keep.

The log of every transaction is made of new accounts, postings and writes
elsewhere (`LedgerLog`).  Such a log keeps the balance of each account equal to
what its entries add up to, and every recorded transaction even.
-/

namespace PaymentBilling

open Relational Transact

/-- A log that only opens accounts, posts transactions and writes elsewhere. -/
inductive LedgerLog : List RowWrite → Data → Prop
  | nil (db : Data) : LedgerLog [] db
  | other {w : RowWrite} {ws : List RowWrite} {db : Data} (ht : w.table ∉ ledgerTables)
      (h : LedgerLog ws (schema.apply w db)) : LedgerLog (w :: ws) db
  | account {row : LedgerAccount} {ws : List RowWrite} {db : Data} (hbal : row.balance = 0)
      (h : LedgerLog ws (schema.apply (.insert .ledgerAccounts row) db)) :
      LedgerLog (.insert .ledgerAccounts row :: ws) db
  | post {txn : LedgerTransaction} {lines : List Line} {p ws : List RowWrite} {db : Data}
      (hp : Posting txn lines p db) (h : LedgerLog ws (postgres.applyAll p db)) :
      LedgerLog (p ++ ws) db

/-- The sum of the entries of an account, signed by its normal side. -/
def bookedTotal (account : LedgerAccount) (db : Data) : Int :=
  (((db .ledgerEntries).filter (·.accountId = account.id)).map fun e =>
    entryChange account.accountType e.entryType e.amount).sum

/-- Balances are what the entries add up to, and transactions are even. -/
structure BooksKept (db : Data) : Prop where
  accounts : ∀ a ∈ db .ledgerAccounts, a.balance = bookedTotal a db
  transactions : ∀ t ∈ db .ledgerTransactions, Balanced (entriesOf t.id db)

section Log

variable {ws ws' : List RowWrite} {db db' : Data}

theorem LedgerLog.mono (h : LedgerLog ws db) (hf : locking.fitsAll ws db)
    (hf' : locking.fitsAll ws db') (hle : locking.le db db') : LedgerLog ws db' := by
  induction h generalizing db' with
  | nil => exact .nil _
  | other ht _ ih => exact .other ht (ih hf.2 hf'.2 (locking.apply_le hf.1 hf'.1 hle))
  | account hbal _ ih => exact .account hbal (ih hf.2 hf'.2 (locking.apply_le hf.1 hf'.1 hle))
  | post hp _ ih =>
      rw [locking.fitsAll_append] at hf hf'
      exact .post (hp.mono hf.1 hf'.1 hle) (ih hf.2 hf'.2 (locking.applyAll_le hf.1 hf'.1 hle))

theorem LedgerLog.append (h : LedgerLog ws db) (h' : LedgerLog ws' (postgres.applyAll ws db)) :
    LedgerLog (ws ++ ws') db := by
  induction h with
  | nil => exact h'
  | other ht _ ih => exact .other ht (ih h')
  | account hbal _ ih => exact .account hbal (ih h')
  | post hp _ ih =>
      rw [List.append_assoc]
      rw [postgres.applyAll_append] at h'
      exact .post hp (ih h')

theorem LedgerLog.of_offLedger (h : ∀ w ∈ ws, w.table ∉ ledgerTables) : LedgerLog ws db := by
  induction ws generalizing db with
  | nil => exact .nil _
  | cons w ws ih =>
      rw [List.forall_mem_cons] at h
      exact .other h.1 (ih h.2)

/-! ## The steps -/

/-- Writes elsewhere do not change the books. -/
theorem BooksKept.other {w : RowWrite} (h : BooksKept db) (ht : w.table ∉ ledgerTables) :
    BooksKept (schema.apply w db) := by
  have hsame : ∀ t ∈ ledgerTables, schema.apply w db t = db t := fun t hin =>
    Schema.apply_of_ne fun he => ht (he ▸ hin)
  have haccounts := hsame .ledgerAccounts (by decide)
  have htransactions := hsame .ledgerTransactions (by decide)
  have hentries := hsame .ledgerEntries (by decide)
  constructor
  · rw [haccounts]
    intro a ha
    rw [bookedTotal, hentries]
    exact h.accounts a ha
  · rw [htransactions]
    intro t ht
    rw [entriesOf, hentries]
    exact h.transactions t ht

/-- A new account has no entries. -/
theorem BooksKept.account {row : LedgerAccount} (h : BooksKept db) (hv : schema.Valid db)
    (hf : schema.accepts (.insert .ledgerAccounts row) db) (hbal : row.balance = 0) :
    BooksKept (schema.apply (.insert .ledgerAccounts row) db) := by
  have htransactions : schema.apply (.insert .ledgerAccounts row) db .ledgerTransactions =
      db .ledgerTransactions := Schema.apply_of_ne (by simp [Write.table])
  have hentries : schema.apply (.insert .ledgerAccounts row) db .ledgerEntries =
      db .ledgerEntries := Schema.apply_of_ne (by simp [Write.table])
  constructor
  · intro a ha
    rw [bookedTotal, hentries]
    rw [Schema.apply_insert_self, List.mem_append, List.mem_singleton] at ha
    rcases ha with ha | rfl
    · exact h.accounts a ha
    · have hnone : (db .ledgerEntries).filter (·.accountId = a.id) = [] := by
        rw [List.filter_eq_nil_iff]
        intro e he hid
        obtain ⟨-, account, haccount⟩ := refs_of_entry hv he
        have hfresh : schema.find .ledgerAccounts a.id db = none :=
          (Schema.accepts_insert.mp hf).2.1
        rw [of_decide_eq_true hid, hfresh] at haccount
        cases haccount
      rw [hnone, hbal]
      rfl
  · rw [htransactions]
    intro t ht
    rw [entriesOf, hentries]
    exact h.transactions t ht

/-- The entries of a posting count for their accounts. -/
theorem Posting.bookedTotal {txn : LedgerTransaction} {lines : List Line}
    (h : Posting txn lines ws db) (hv : schema.Valid db) (hf : locking.fitsAll ws db)
    {a : LedgerAccount} (ha : a ∈ db .ledgerAccounts) :
    PaymentBilling.bookedTotal (addLines lines a) (postgres.applyAll ws db) =
      PaymentBilling.bookedTotal a db + changeOf a.id lines := by
  have hv' : schema.Valid (postgres.applyAll ws db) := locking.valid_applyAll hf hv
  -- a line of this account has its type
  have htype : ∀ line ∈ lines, line.entry.accountId = a.id → line.type = a.accountType := by
    intro line hline hid
    obtain ⟨account, hfind, hty⟩ := h.typed line hline
    have hmem : addLines lines a ∈ postgres.applyAll ws db .ledgerAccounts := by
      rw [h.accounts]
      exact List.mem_map_of_mem ha
    have heq : account = addLines lines a :=
      hv'.eq_of_id (Schema.mem_of_find hfind) hmem ((Schema.id_of_find hfind).trans hid)
    rw [← hty, heq]
    rfl
  have hnew : (((lines.map Line.entry).filter (·.accountId = a.id)).map fun e =>
      entryChange a.accountType e.entryType e.amount).sum = changeOf a.id lines := by
    rw [changeOf, List.filter_map, List.map_map]
    refine congrArg List.sum (List.map_congr_left fun line hline => ?_)
    obtain ⟨hline, hid⟩ := List.mem_filter.mp hline
    rw [Function.comp_apply, Line.change, htype line hline (by simpa using hid)]
  rw [PaymentBilling.bookedTotal, h.entries, List.filter_append, List.map_append, List.sum_append]
  exact congrArg _ hnew

/-- A posting keeps the books. -/
theorem BooksKept.post {txn : LedgerTransaction} {lines : List Line} (h : BooksKept db)
    (hv : schema.Valid db) (hf : locking.fitsAll ws db) (hp : Posting txn lines ws db) :
    BooksKept (postgres.applyAll ws db) := by
  constructor
  · rw [hp.accounts]
    intro a' ha'
    obtain ⟨a, ha, rfl⟩ := List.mem_map.mp ha'
    rw [hp.bookedTotal hv hf ha, ← h.accounts a ha]
    rfl
  · rw [hp.transactions]
    intro t ht
    rcases List.mem_append.mp ht with ht | ht
    · rw [hp.entriesOf_of_ne (hp.ne_of_mem hf ht)]
      exact h.transactions t ht
    · obtain rfl := List.mem_singleton.mp ht
      rw [hp.entriesOf_self hv hf]
      exact hp.balanced

/-- A log keeps the books. -/
theorem BooksKept.log (h : BooksKept db) (hv : schema.Valid db) (hf : locking.fitsAll ws db)
    (hlog : LedgerLog ws db) : BooksKept (postgres.applyAll ws db) := by
  induction hlog with
  | nil => exact h
  | other ht _ ih => exact ih (h.other ht) (locking.valid_apply hf.1 hv) hf.2
  | account hbal _ ih => exact ih (h.account hv hf.1 hbal) (locking.valid_apply hf.1 hv) hf.2
  | post hp _ ih =>
      rw [locking.fitsAll_append] at hf
      rw [postgres.applyAll_append]
      exact ih (h.post hv hf.1 hp) (locking.valid_applyAll hf.1 hv) hf.2

end Log

/-! ## The trial balance -/

/-- The sum of the balances of the accounts with one normal side. -/
def normalTotal (debitNormal : Bool) (db : Data) : Int :=
  (((db .ledgerAccounts).filter fun a =>
    LedgerService.isDebitNormal a.accountType = debitNormal).map (·.balance)).sum

/-- Books that are kept are in balance. -/
theorem BooksKept.trial_balance {db : Data} (h : BooksKept db) (hv : schema.Valid db) :
    normalTotal true db = normalTotal false db := by
  have htotal := Bookkeeping.trial_balance (db .ledgerAccounts)
    ((db .ledgerTransactions).map (·.id)) (db .ledgerEntries)
    (·.id) (fun a => LedgerService.isDebitNormal a.accountType) (·.balance) (·.accountId)
    (·.ledgerTransactionId) (·.entryType = .DEBIT) (·.amount) (hv.ids .ledgerAccounts)
    (hv.ids .ledgerTransactions) ?_ ?_ h.accounts ?_
  · simpa [normalTotal] using htotal
  · intro e he
    obtain ⟨-, a, ha⟩ := refs_of_entry hv he
    exact List.mem_map.mpr ⟨a, Schema.mem_of_find ha, Schema.id_of_find ha⟩
  · intro e he
    obtain ⟨⟨t, ht⟩, -⟩ := refs_of_entry hv he
    exact List.mem_map.mpr ⟨t, Schema.mem_of_find ht, Schema.id_of_find ht⟩
  · intro id hid
    obtain ⟨t, ht, rfl⟩ := List.mem_map.mp hid
    have hnet := netOf_eq (entriesOf t.id db)
    have heven := (h.transactions t ht).even
    have hzero : netOf (entriesOf t.id db) = 0 := by omega
    exact hzero

end PaymentBilling

import PaymentBilling.Safety.CreditTrail
import PaymentBilling.Safety.LedgerTrail
import PaymentBilling.Services.Reads
import PaymentBilling.Spec.LedgerBooks

/-!
# Safety.Statements

What users are shown adds up.

The balance that the ledger shows for a user is what the transactions in the
history of that user add up to, and the balance of credits is what the credit
history adds up to, whatever operations have run and however the histories are
read page by page.
-/

namespace PaymentBilling

open Relational Transact

/-! ## The books, whatever is committed -/

section Books

variable {op : Operation} {x : Transfer} {txn : LedgerTransaction} {db : Data} {ws : List RowWrite}

theorem Opens.ledgerLog (h : Opens ws) : LedgerLog ws db := by
  induction ws generalizing db with
  | nil => exact .nil db
  | cons w ws ih =>
      obtain ⟨hw, hws⟩ := List.forall_mem_cons.mp h
      obtain ⟨row, hbal, rfl⟩ := hw
      exact .account hbal (ih hws)

theorem Transferred.ledgerLog (h : Transferred x txn ws db) : LedgerLog ws db := by
  obtain ⟨_, _, _, _, opened, recorded, -, -, rfl, hopens, -, -, hrecord⟩ := h.split
  refine hopens.ledgerLog.append ?_
  rcases hrecord with ⟨rfl, -, -⟩ | ⟨lines, hp, -, -⟩
  · exact .nil _
  · rw [← List.append_nil recorded]
    exact .post hp (.nil _)

theorem CreditChange.ledgerLog {user : String} {n : Int} {key : Option String}
    (h : CreditChange user n key ws db) : LedgerLog ws db := by
  cases h <;> exact .of_offLedger (by simp [Write.table, ledgerTables])

/-- Every commit is a log of the ledger. -/
theorem Commit.ledgerLog (h : Commit op db ws) : LedgerLog ws db := by
  cases h with
  | plain tables =>
      have hplain : ∀ t ∈ plainTables, t ∉ ledgerTables := by decide
      exact .of_offLedger fun w hw => hplain _ (tables w hw)
  | credits src user n _ _ change => exact change.ledgerLog
  | request userId data r _ _ => exact .of_offLedger (by simp [Write.table, ledgerTables])
  | review id review p _ _ => exact .of_offLedger (by simp [Write.table, ledgerTables])
  | charge seen g _ _ _ _ => exact .of_offLedger (by simp [Write.table, ledgerTables])
  | paid seen g txn _ _ _ _ transferred _ =>
      exact transferred.ledgerLog.append (.of_offLedger (by simp [Write.table, ledgerTables]))
  | failed seen message _ _ => exact .of_offLedger (by simp [Write.table, ledgerTables])
  | processed seen _ _ _ => exact .of_offLedger (by simp [Write.table, ledgerTables])
  | chargeback config req data r _ _ _ delivery _ =>
      obtain ⟨ws₀, rest, rfl, hrecord, hrest⟩ := delivery_cases delivery
      have hrecorded : LedgerLog ws₀ db := .of_offLedger fun w hw => by rw [hrecord w hw]; decide
      rcases hrest with rfl | ⟨d, txn, dispute, transfer, rfl, -, hdispute, htransfer⟩
      · exact hrecorded.append (.nil _)
      · refine hrecorded.append (.append ?_ (htransfer.ledgerLog.append
          (.of_offLedger (by simp [Write.table, ledgerTables]))))
        cases hdispute with
        | found d' _ _ => exact .nil _
        | opened _ => exact .of_offLedger (by simp [Write.table, ledgerTables])
  | submitted e _ => exact .of_offLedger (by simp [Write.table, ledgerTables])
  | evidence id evidence _ _ => exact .of_offLedger (by simp [Write.table, ledgerTables])
  | outcome seen o fee now txn _ _ transferred _ =>
      exact transferred.ledgerLog.append (.of_offLedger (by simp [Write.table, ledgerTables]))

end Books

/-! ## Histories of the ledger -/

/-- Debits less credits on an account. -/
def TransactionResponse.change (accountId : Option String) (response : TransactionResponse) : Int :=
  ((response.entries.filter (some ·.accountId = accountId)).map fun e =>
    if e.entryType = .DEBIT then e.amount else -e.amount).sum

/-- What a transaction adds to the asset account of its user. -/
def LedgerSource.assetChange (n : Int) : LedgerSource → Int
  | outcome _ .WON => n
  | _ => -n

section Ledger

variable {db : Data} {txn : LedgerTransaction} {account : LedgerAccount} {user userId : String} {n : Int}

theorem slotTotal_asset (src : LedgerSource) : slotTotal userId .ASSET (src.slots user n) =
    if userId = user then src.assetChange n else 0 := by
  by_cases huser : userId = user
  · subst huser
    cases src with
    | outcome id o => cases o <;> simp [LedgerSource.slots, LedgerSource.assetChange, slotTotal,
        Slot.change, entryChange, Bookkeeping.signed, LedgerService.isDebitNormal]
    | _ => simp [LedgerSource.slots, refundSlots, LedgerSource.assetChange, slotTotal,
        Slot.change, entryChange, Bookkeeping.signed, LedgerService.isDebitNormal]
  · have hother : user ≠ userId := fun h => huser h.symm
    cases src with
    | outcome id o => cases o <;> simp [LedgerSource.slots, slotTotal, huser, hother]
    | _ => simp [LedgerSource.slots, refundSlots, slotTotal, huser, hother]

/-- An account of a user is known by its identifier. -/
theorem any_account {type : LedgerAccountType} (hv : schema.Valid db)
    (haccount : schema.findBy .ledgerAccounts (.userAccount userId type) db = some account)
    (id : String) :
    (schema.find .ledgerAccounts id db).any (fun a => a.userId = userId && a.accountType = type) =
      decide (id = account.id) := by
  have hmem := Schema.mem_of_findBy haccount
  have hkey := Schema.key_of_findBy haccount
  simp only [schema, List.mem_singleton, UniqueKey.userAccount.injEq] at hkey
  rw [Bool.eq_iff_iff, decide_eq_true_iff]
  constructor
  · intro hany
    cases ha : schema.find .ledgerAccounts id db with
    | none =>
        rw [ha] at hany
        cases hany
    | some a =>
        rw [ha] at hany
        simp only [Option.any_some, Bool.and_eq_true, decide_eq_true_eq] at hany
        have hsame : a = account := hv.eq_of_key (t := .ledgerAccounts)
          (k := .userAccount userId type) (Schema.mem_of_find ha) hmem (by simp [schema, hany])
          (by simp [schema, ← hkey.1, ← hkey.2])
        exact (Schema.id_of_find ha).symm.trans (congrArg _ hsame)
  · intro hid
    subst hid
    have hfind : schema.find .ledgerAccounts account.id db = some account := hv.find_of_mem hmem
    rw [hfind]
    simp [← hkey.1, ← hkey.2]

/-- The balance of an account is what all transactions add to it. -/
theorem balance_eq_added (hv : schema.Valid db) (hbooks : BooksKept db) (userId : String)
    (type : LedgerAccountType) : accountBalance userId type db =
      ((db .ledgerTransactions).map fun t => addedTo userId type (entriesOf t.id db) db).sum := by
  cases haccount : schema.findBy .ledgerAccounts (.userAccount userId type) db with
  | none =>
      have hnone : ∀ id, (schema.find .ledgerAccounts id db).any
          (fun a => a.userId = userId && a.accountType = type) = false := by
        intro id
        cases ha : schema.find .ledgerAccounts id db with
        | none => rfl
        | some a =>
            have hkey : UniqueKey.userAccount userId type ∉ schema.keys a := by
              simpa using List.find?_eq_none.mp haccount a (Schema.mem_of_find ha)
            rw [Option.any_some, Bool.eq_false_iff]
            intro hany
            simp only [Bool.and_eq_true, decide_eq_true_eq] at hany
            exact hkey (by simp [schema, hany])
      simp [accountBalance, haccount, addedTo, hnone]
  | some account =>
      have hmem := Schema.mem_of_findBy haccount
      have hkey := Schema.key_of_findBy haccount
      simp only [schema, List.mem_singleton, UniqueKey.userAccount.injEq] at hkey
      have hposted : ∀ e ∈ (db .ledgerEntries).filter (·.accountId = account.id),
          e.ledgerTransactionId ∈ (db .ledgerTransactions).map schema.id := by
        intro e he
        obtain ⟨⟨t, ht⟩, -⟩ := refs_of_entry hv (List.mem_filter.mp he).1
        exact List.mem_map.mpr ⟨t, Schema.mem_of_find ht, Schema.id_of_find ht⟩
      have htotal := Bookkeeping.sum_by_key (hv.ids .ledgerTransactions) (·.ledgerTransactionId)
        (fun e : LedgerEntry => entryChange account.accountType e.entryType e.amount) hposted
      have hbalance : accountBalance userId type db = account.balance := by
        rw [accountBalance, haccount]
        rfl
      rw [hbalance, hbooks.accounts account hmem, bookedTotal, ← htotal, List.map_map]
      refine congrArg List.sum (List.map_congr_left fun t _ => ?_)
      have hid : schema.id (t := .ledgerTransactions) t = t.id := rfl
      simp only [addedTo, entriesOf, any_account hv haccount, Function.comp_apply, ← hkey.2,
        List.filter_filter, hid, Bool.and_comm]

/-- What the entries of a transaction add to the asset account of a user. -/
theorem change_eq_addedTo (hv : schema.Valid db)
    (haccount : schema.findBy .ledgerAccounts (.userAccount userId .ASSET) db = some account)
    (txn : LedgerTransaction) : (withEntries db txn).change (some account.id) =
      addedTo userId .ASSET (entriesOf txn.id db) db := by
  have hsigned : ∀ e : LedgerEntry, (if e.entryType = .DEBIT then e.amount else -e.amount) =
      entryChange .ASSET e.entryType e.amount := by
    intro e
    cases he : e.entryType <;> simp [entryChange, Bookkeeping.signed, LedgerService.isDebitNormal]
  simp only [TransactionResponse.change, addedTo, hsigned, withEntries, entriesOf,
    any_account hv haccount, Option.some.injEq]

/-- A transaction adds to the asset account of its own user only. -/
theorem Explained.change {src : LedgerSource} (h : Explained src txn user n db) (hv : schema.Valid db)
    (haccount : schema.findBy .ledgerAccounts (.userAccount userId .ASSET) db = some account) :
    (withEntries db txn).change (some account.id) =
      if userId = user then src.assetChange n else 0 := by
  rw [change_eq_addedTo hv haccount, addedTo_eq _ _ h.filled, slotTotal_asset]

/-- Only the transactions of the user add to the asset account. -/
theorem balance_eq_history (hv : schema.Valid db) (hbooks : BooksKept db)
    (hexplained : ∀ txn ∈ db .ledgerTransactions, ∃ src user n, Explained src txn user n db)
    (haccount : schema.findBy .ledgerAccounts (.userAccount userId .ASSET) db = some account) :
    account.balance = (((db .ledgerTransactions).filter (·.userId = some userId)).map fun t =>
      (withEntries db t).change (some account.id)).sum := by
  have hbalance := balance_eq_added hv hbooks userId .ASSET
  simp only [accountBalance, haccount, Option.map_some, Option.getD_some,
    ← change_eq_addedTo hv haccount] at hbalance
  rw [hbalance]
  refine (Bookkeeping.sum_filter_of_zero fun t ht hother => ?_).symm
  obtain ⟨src, user, n, h⟩ := hexplained t ht
  rw [h.change hv haccount, if_neg fun huser => ?_]
  rw [huser, ← h.owner] at hother
  simp at hother

end Ledger

/-! ## Histories of credits -/

section Credits

variable {db : Data} {userId : String}

/-- The rows that a history shows are those that the user owns. -/
theorem ownerOf_iff {credits : Credits} (hv : schema.Valid db)
    (hcredits : schema.findBy .credits (.userId userId) db = some credits) (log : CreditTransaction) :
    ownerOf db log = some userId ↔ log.creditsId = credits.id := by
  have hmem := Schema.mem_of_findBy hcredits
  constructor
  · intro howner
    obtain ⟨row, hrow, huser⟩ := Option.map_eq_some_iff.mp howner
    have hsame : row = credits := by
      have hfound := findBy_userId hv (Schema.mem_of_find hrow)
      rw [huser, hcredits] at hfound
      exact (Option.some.inj hfound).symm
    rw [← Schema.id_of_find hrow, hsame]
    rfl
  · intro hid
    have hfind : schema.find .credits credits.id db = some credits := hv.find_of_mem hmem
    rw [ownerOf, hid, hfind, Option.map_some, userId_of_findBy hcredits]

/-- What is logged for a user is what the history shows. -/
theorem loggedTotal_of_credits {credits : Credits} (hv : schema.Valid db)
    (hcredits : schema.findBy .credits (.userId userId) db = some credits) : loggedTotal userId db =
      (((db .creditTransactions).filter (·.creditsId = credits.id)).map (·.amount)).sum := by
  simp only [loggedTotal, ownerOf_iff hv hcredits]

theorem loggedTotal_of_none (hv : schema.Valid db)
    (hcredits : schema.findBy .credits (.userId userId) db = none) : loggedTotal userId db = 0 := by
  have hnone : (db .creditTransactions).filter (fun log => ownerOf db log = some userId) = [] := by
    refine List.filter_eq_nil_iff.mpr fun log _ howner => ?_
    obtain ⟨row, hrow, huser⟩ := Option.map_eq_some_iff.mp (of_decide_eq_true howner)
    have hfound := findBy_userId hv (Schema.mem_of_find hrow)
    rw [huser, hcredits] at hfound
    cases hfound
  rw [loggedTotal, hnone]
  rfl

theorem getBalance_nonneg (hpos : ∀ row ∈ db .credits, 0 ≤ row.balance) :
    0 ≤ CreditsService.getBalance userId db := by
  rw [CreditsService.getBalance]
  cases hcredits : schema.findBy .credits (.userId userId) db with
  | none => exact Int.le_refl 0
  | some row => exact hpos row (Schema.mem_of_findBy hcredits)

end Credits

/-! ## Runs -/

section Runs

variable {ι : Type} [DecidableEq ι] {ops : ι → Operation}

/-- The pages of a user's credit history. -/
def creditPages (createdAt : CreditTransaction → Int) (userId : String) (size pages : Nat) (db : Data) :
    List CreditTransaction :=
  (List.range pages).flatMap fun k =>
    (CreditsService.getTransactionHistory createdAt userId size (k * size) db).transactions

/-- So many credits are shown, with a history of one page. -/
def creditsShow (userId : String) (n : Int) (db : Data) : Bool :=
  CreditsService.getBalance userId db = n &&
    (CreditsService.getTransactionHistory (fun _ => 0) userId 50 0 db).total ≤ 1 * 50

/-- The pages of a user's history in the ledger. -/
def ledgerPages (createdAt : LedgerTransaction → Int) (userId : String) (size pages : Nat) (db : Data) :
    List TransactionResponse :=
  (List.range pages).flatMap fun k =>
    (LedgerService.getTransactionHistory createdAt userId size (k * size) db).transactions

theorem booksKept_of_runs {db : Database} {s : Sys Stmt Data RowWrite RowLock Err Unit ι}
    (hbooks : BooksKept db.rows) (h : Runs postgres AnyStep (operations db ops) s) : BooksKept s.db :=
  inv_of_commits hbooks (fun _ _ _ hv hk hfits hcommit => hk.log hv hfits hcommit.ledgerLog) h

/-- So many transactions are shown. -/
def ledgerShows (userId : String) (n : Nat) (db : Data) : Bool :=
  (LedgerService.getTransactionHistory (fun _ => 0) userId 1 0 db).total = n

end Runs

end PaymentBilling

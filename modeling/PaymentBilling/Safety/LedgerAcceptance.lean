import PaymentBilling.Spec.LedgerProgress

/-!
# Safety.LedgerAcceptance

Which transactions `recordTransaction` accepts, and what it makes of the ledger.

A list of entries is accepted when it balances, every account exists, every
amount and every balance on the way stays in its column, and the owner of the
transaction is known.  Anything else leaves the database as it was.
-/

namespace PaymentBilling

open Relational Transact LedgerService

section Acceptance

variable {userId : Js} {description : String} {entries : List LedgerEntryInput}
  {status : LedgerTransactionStatus} {metadata : Metadata} {db : Data}

/-- What has come of a call that records without a key. -/
def RecordOutcome (data : LedgerTransactionCreate) (entries : List LedgerEntryInput) (db : Data)
    (r : Except Err TransactionResponse) (db' : Data) : Prop :=
  match r with
  | .ok response => (OwnerKnown data.userId db ∧ Postable entries db) ∧
      InLedger data entries response.transaction db db'
  | .error _ => db' = db

/-- A call that records without a key and in a transaction of its own. -/
structure RecordsExactly (userId : Js) (description : String) (entries : List LedgerEntryInput)
    (status : LedgerTransactionStatus) (metadata : Metadata) (db : Data) : Prop where
  /-- When nothing fails, it succeeds for exactly these entries. -/
  accepts : postgres.Sure (fun _ => True)
    (recordTransaction userId description entries status metadata) (fun r _ _ =>
      (∃ response, r = .ok response) ↔ OwnerKnown userId db ∧ Postable entries db) {} db
  /-- Whatever fails, it has done everything or nothing. -/
  outcome : ∀ (F : Faults Stmt RowWrite RowLock Err) r c' db',
    postgres.Ends F (recordTransaction userId description entries status metadata) {} db r c' db' →
      RecordOutcome ⟨userId, description, status, metadata, none⟩ entries db r db'

/-- Entries that can be posted are. -/
theorem sure_recordTransaction (hv : schema.Valid db) (howner : OwnerKnown userId db)
    (h : Postable entries db) :
    postgres.Sure (fun _ => True) (recordTransaction userId description entries status metadata)
      (fun r _ _ => ∃ response, r = .ok response) {} db := by
  have hvalid := validate_of_balanced h.two h.payable h.even
  have hrecord : recordTransaction userId description entries status metadata =
      transaction (executeRecord userId description entries status metadata none) := by
    simp [recordTransaction, validateAndRecord, hvalid]
  rw [hrecord]
  have hgoes : postgres.Goes (LocksOf ledgerTables) (fun _ => True)
      (executeRecord userId description entries status metadata none) (fun _ _ => True) db :=
    goes_executeRecord hv howner nofun h
  exact (hgoes.sure_transaction (c := {}) (by simp)).mono fun r c' db' ⟨a, hr, _⟩ => ⟨a, hr⟩

/-- A call does all of it or nothing. -/
theorem wp_recordTransaction_outcome (hv : schema.Valid db) :
    soloProtocol.wp (recordTransaction userId description entries status metadata) (fun r _ db' =>
      RecordOutcome ⟨userId, description, status, metadata, none⟩ entries db r db') {} db := by
  show soloProtocol.wp (validateAndRecord userId description entries status metadata false none) _ _ _
  unfold validateAndRecord
  cases hval : validate entries with
  | error e => exact rfl
  | ok _ =>
      refine Protocol.wp_mono _ (fun r c' db' hr => ?_) (Protocol.wp_transaction_of_does_alone
        fun K => does_executeRecord_row _ hval)
      obtain ⟨herror, hok⟩ := hr
      cases r with
      | error e => exact herror e rfl
      | ok response =>
          obtain ⟨ws, hfits, hx, rfl⟩ := hok response rfl
          obtain ⟨howner, hpostable, hbooked⟩ := booked_of_execute hv hfits hx
          exact ⟨⟨howner, hpostable⟩, hbooked⟩

end Acceptance

/-- The list alone is in order: nothing is said of the column of its amounts,
nor of the owner. -/
structure EntriesFit (entries : List LedgerEntryInput) (db : Data) : Prop where
  two : 2 ≤ entries.length
  positive : ∀ e ∈ entries, ∃ n, e.amount = .int n ∧ 0 < n
  even : inputTotal .DEBIT entries = inputTotal .CREDIT entries
  accounts : ∀ e ∈ entries, ∃ account, schema.find .ledgerAccounts e.accountId db = some account
  inRange : BalancesFit entries db

/-- Two assets at the ends of the column of balances. -/
def extremeAccounts : Database :=
  .ofWrites [.insert .users ⟨"low"⟩, .insert .users ⟨"high"⟩,
    .insert .ledgerAccounts ⟨"lowest", "low", .ASSET, -2147483648⟩,
    .insert .ledgerAccounts ⟨"highest", "high", .ASSET, 2147483647⟩] (by decide)

/-- A transfer from the highest to the lowest account. -/
def transferOf (n : Int) : List LedgerEntryInput :=
  [⟨"lowest", .DEBIT, .int n⟩, ⟨"highest", .CREDIT, .int n⟩]

theorem entriesFit_transferOf {n : Int} (hpos : 0 < n)
    (hfit : BalancesFit (transferOf n) extremeAccounts.rows) :
    EntriesFit (transferOf n) extremeAccounts.rows := by
  refine ⟨Nat.le_refl 2, ?_, rfl, ?_, hfit⟩
  · simp [transferOf, hpos]
  · have hlowest : ∃ a, schema.find .ledgerAccounts "lowest" extremeAccounts.rows = some a :=
      ⟨⟨"lowest", "low", .ASSET, -2147483648⟩, by decide +kernel⟩
    have hhighest : ∃ a, schema.find .ledgerAccounts "highest" extremeAccounts.rows = some a :=
      ⟨⟨"highest", "high", .ASSET, 2147483647⟩, by decide +kernel⟩
    simpa [transferOf] using ⟨hlowest, hhighest⟩

end PaymentBilling

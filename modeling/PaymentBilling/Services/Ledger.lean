import PaymentBilling.Store.Statement

/-!
# Services.Ledger

`LedgerService`: double-entry transactions.

A transaction is checked to balance before anything is written, then its row
and its entries are inserted one by one, each entry together with the change of
its account's balance.  A call joins the transaction of its caller or opens one
of its own.
-/

namespace PaymentBilling

/-- One side of a transaction to record. -/
structure LedgerEntryInput where
  accountId : String
  entryType : LedgerEntryType
  amount : Js
  deriving DecidableEq

namespace LedgerService

/-- The user that owns the shared system accounts. -/
def SYSTEM_USER_ID : String := "test-admin-1"

/-- The asset account of a user. -/
def getOrCreateAssetAccount (userId : Js) : Action String := do
  let account ← query (.ledgerAccountUpsert userId .ASSET)
  return account.id

/-- A shared system account. -/
def getOrCreateSystemAccount (accountType : LedgerAccountType) : Action String := do
  let account ← query (.ledgerAccountUpsert (.str SYSTEM_USER_ID) accountType)
  return account.id

/-- The normal side of an account: debits increase assets and expenses. -/
def isDebitNormal (accountType : LedgerAccountType) : Bool :=
  accountType = .ASSET || accountType = .EXPENSE

/-- Debit-normal: `DEBIT` +, `CREDIT` -.  Credit-normal: `CREDIT` +, `DEBIT` -. -/
def calculateBalanceChange (accountType : LedgerAccountType) (entryType : LedgerEntryType)
    (amount : Js) : Js :=
  if isDebitNormal accountType then
    if entryType = .DEBIT then amount else amount.neg
  else
    if entryType = .CREDIT then amount else amount.neg

/-- The debit and credit totals of the entries, added to those so far. -/
def totals (debitTotal creditTotal : Js) : List LedgerEntryInput → Except Err (Js × Js)
  | [] => .ok (debitTotal, creditTotal)
  | entry :: entries =>
    if entry.amount.le (.int 0) then .error (.badRequest "Entry amounts must be positive")
    else if entry.entryType = .DEBIT then totals (debitTotal.add entry.amount) creditTotal entries
    else totals debitTotal (creditTotal.add entry.amount) entries

/-- What must hold of the entries before anything is written. -/
def validate (entries : List LedgerEntryInput) : Except Err Unit :=
  if entries.length < 2 then .error (.badRequest "Transaction must have at least 2 entries")
  else
    match totals (.int 0) (.int 0) entries with
    | .error e => .error e
    | .ok (debitTotal, creditTotal) =>
      if debitTotal.strictEq creditTotal then .ok ()
      else .error (.badRequest ("Transaction not balanced: debits (" ++ debitTotal.text ++
        ") != credits (" ++ creditTotal.text ++ ")"))

/-- Write the entries of the transaction `ledgerTransactionId` and change the
balances of their accounts. -/
def recordEntries (ledgerTransactionId : String) : List LedgerEntryInput → Action Unit
  | [] => return ()
  | entry :: entries => do
    match ← query (.ledgerAccountFindUnique entry.accountId) with
    | none => throw (.notFound ("Ledger account " ++ entry.accountId ++ " not found"))
    | some account =>
      let _ ← query (.ledgerEntryCreate
        { ledgerTransactionId, accountId := entry.accountId, entryType := entry.entryType
          amount := entry.amount })
      let delta := calculateBalanceChange account.accountType entry.entryType entry.amount
      let _ ← query (.ledgerAccountUpdate entry.accountId delta)
      recordEntries ledgerTransactionId entries

/-- Write a transaction whose entries have been validated. -/
def executeRecord (userId : Js) (description : String) (entries : List LedgerEntryInput)
    (status : LedgerTransactionStatus) (metadata : Metadata) (idempotencyKey : Option String) :
    Action TransactionResponse := do
  let transaction ← query (.ledgerTransactionCreate
    { userId, description, status, metadata, idempotencyKey })
  recordEntries transaction.id entries
  match ← query (.ledgerTransactionFindUnique transaction.id) with
  | some result => return result
  | none => throw (.typeError "Cannot read properties of null")

/-- Validate and write, inside the caller's transaction or in a new one. -/
def validateAndRecord (userId : Js) (description : String) (entries : List LedgerEntryInput)
    (status : LedgerTransactionStatus) (metadata : Metadata) (externalTx : Bool)
    (idempotencyKey : Option String) : Action TransactionResponse :=
  match validate entries with
  | .error e => throw e
  | .ok () =>
    if externalTx then executeRecord userId description entries status metadata idempotencyKey
    else transaction (executeRecord userId description entries status metadata idempotencyKey)

/-- Record a balanced transaction, unless its idempotency key is known. -/
def recordTransaction (userId : Js) (description : String) (entries : List LedgerEntryInput)
    (status : LedgerTransactionStatus := .COMPLETED) (metadata : Metadata := [])
    (externalTx : Bool := false) (idempotencyKey : Option String := none) :
    Action TransactionResponse := do
  match idempotencyKey.filter (· ≠ "") with
  | none => validateAndRecord userId description entries status metadata externalTx none
  | some key =>
    match ← query (.ledgerTransactionFindFirst key) with
    | some existing => return existing
    | none => validateAndRecord userId description entries status metadata externalTx (some key)

end LedgerService

end PaymentBilling

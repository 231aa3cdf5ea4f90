import PaymentBilling.Store.Statement

/-!
# Services.Simulator

`SimulatorService.resetUser`: all rows of a user are deleted, between tests.

It is one batch of statements that is committed as a whole; no other operation
deletes rows, so it is a function of the database and no program of statements.
-/

namespace PaymentBilling

open Relational

/-- Delete the rows of a table that meet a condition. -/
def deleteMany (t : Table) (condition : Row t → Bool) (db : Data) : Data :=
  Function.update db t ((db t).filter fun row => !condition row)

/-- The response to a reset. -/
structure ResetResponse where
  reset : Bool := true
  userId : String

namespace SimulatorService

/-- The credits of a transaction are those of the user. -/
def ofCredits (userId : String) (db : Data) (row : CreditTransaction) : Bool :=
  (schema.find .credits row.creditsId db).any (·.userId = userId)

/-- The transaction of an entry is one of the user. -/
def ofTransaction (userId : String) (db : Data) (row : LedgerEntry) : Bool :=
  (schema.find .ledgerTransactions row.ledgerTransactionId db).any (·.userId = some userId)

/-- The subscription of a gateway's record is that of the user. -/
def ofSubscription (userId : String) (db : Data) (row : GatewaySubscription) : Bool :=
  (schema.find .subscriptions row.subscriptionId db).any (·.userId = userId)

/-- The dispute of a piece of evidence is one of the user. -/
def ofDispute (userId : String) (db : Data) (row : DisputeEvidence) : Bool :=
  (schema.find .disputes row.disputeId db).any (·.userId = userId)

/-- The credits of the user. -/
def deleteCredits (userId : String) (db : Data) : Data :=
  deleteMany .credits (·.userId = userId) (deleteMany .creditTransactions (ofCredits userId db) db)

/-- The ledger transactions of the user; the accounts stay as they are. -/
def deleteLedger (userId : String) (db : Data) : Data :=
  deleteMany .ledgerTransactions (·.userId = some userId)
    (deleteMany .ledgerEntries (ofTransaction userId db) db)

/-- The subscription of the user. -/
def deleteSubscription (userId : String) (db : Data) : Data :=
  deleteMany .subscriptions (·.userId = userId)
    (deleteMany .gatewaySubscriptions (ofSubscription userId db) db)

/-- The disputes of the user; their evidence goes with them. -/
def deleteDisputes (userId : String) (db : Data) : Data :=
  deleteMany .disputes (·.userId = userId) (deleteMany .disputeEvidence (ofDispute userId db) db)

/-- Reset all state of a user. -/
def resetUser (userId : String) (db : Data) : Except Err (ResetResponse × Data) :=
  match schema.find .users userId db with
  | none => .error (.notFound ("Unknown user " ++ userId))
  | some _ =>
    .ok ({ userId }, deleteDisputes userId (deleteMany .refundRequests (·.userId = userId)
      (deleteSubscription userId (deleteLedger userId (deleteCredits userId db)))))

end SimulatorService

end PaymentBilling

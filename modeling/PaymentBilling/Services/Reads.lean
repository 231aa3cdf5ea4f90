import PaymentBilling.Relational.Pages
import PaymentBilling.Services.Credits
import PaymentBilling.Services.Disputes
import PaymentBilling.Services.Ledger
import PaymentBilling.Services.Refunds
import PaymentBilling.Services.Subscriptions

/-!
# Services.Reads

What the services answer when they only read: balances, histories and lists,
computed on the rows that are committed.

Lists are ordered by a column that the tables here leave out, the time at which
a row was created; it is a parameter.
-/

namespace PaymentBilling

open Relational

/-- `findMany`, newest first. -/
def findMany {α : Type} (createdAt : α → Int) (matching : α → Bool) (take skip : Nat)
    (rows : List α) : List α :=
  select matching (fun a b => createdAt b ≤ createdAt a) take skip rows

/-- A page of a history, with the number of rows on all pages. -/
structure History (α : Type) where
  transactions : List α
  total : Nat

/-- A page of a list, with the bounds that were used. -/
structure Listing (α : Type) where
  data : List α
  total : Nat
  limit : Nat
  offset : Nat

/-- The bounds of the lists for admins: twenty rows, and never more than a hundred. -/
def adminLimit (limit : Option Nat) : Nat := min (limit.getD 20) 100

/-! ## Credits -/

namespace CreditsService

/-- The credits of a user. -/
def getBalance (userId : String) (db : Data) : Int :=
  balanceOrZero (schema.findBy .credits (.userId userId) db)

/-- What has been granted to a user and taken back. -/
def getTransactionHistory (createdAt : CreditTransaction → Int) (userId : String) (limit offset : Nat)
    (db : Data) : History CreditTransaction :=
  match schema.findBy .credits (.userId userId) db with
  | none => ⟨[], 0⟩
  | some credits =>
    { transactions := findMany createdAt (·.creditsId = credits.id) limit offset (db .creditTransactions)
      total := count (·.creditsId = credits.id) (db .creditTransactions) }

end CreditsService

/-! ## The ledger -/

/-- The asset account of a user, if there is one. -/
structure BalanceResponse where
  userId : String
  balance : Int
  accountId : Option String
  deriving DecidableEq

namespace LedgerService

/-- What the ledger holds for a user. -/
def getBalance (userId : String) (db : Data) : BalanceResponse :=
  match schema.findBy .ledgerAccounts (.userAccount userId .ASSET) db with
  | none => ⟨userId, 0, none⟩
  | some account => ⟨userId, account.balance, some account.id⟩

/-- The transactions of a user, each with its entries. -/
def getTransactionHistory (createdAt : LedgerTransaction → Int) (userId : String) (limit offset : Nat)
    (db : Data) : History TransactionResponse where
  transactions :=
    (findMany createdAt (·.userId = some userId) limit offset (db .ledgerTransactions)).map (withEntries db)
  total := count (·.userId = some userId) (db .ledgerTransactions)

end LedgerService

/-! ## Refund requests -/

namespace RefundsService

/-- The requests of a user. -/
def listMine (createdAt : RefundRequest → Int) (userId : String) (limit offset : Nat) (db : Data) :
    Listing RefundRequest where
  data := findMany createdAt (·.userId = userId) limit offset (db .refundRequests)
  total := count (·.userId = userId) (db .refundRequests)
  limit := limit
  offset := offset

/-- The requests of all users, or those in one status. -/
def listAll (createdAt : RefundRequest → Int) (status : Option RefundStatus) (limit offset : Option Nat)
    (db : Data) : Listing RefundRequest :=
  let matching : RefundRequest → Bool := fun r => status.all (r.status = ·)
  { data := findMany createdAt matching (adminLimit limit) (offset.getD 0) (db .refundRequests)
    total := count matching (db .refundRequests)
    limit := adminLimit limit
    offset := offset.getD 0 }

/-- One request. -/
def get (id : String) (db : Data) : Except Err RefundRequest :=
  match schema.find .refundRequests id db with
  | none => .error (.notFound "Refund request not found")
  | some refund => .ok refund

end RefundsService

/-! ## Disputes -/

/-- A dispute with what was submitted for it. -/
structure DisputeView where
  dispute : Dispute
  evidence : List DisputeEvidence

namespace DisputesService

/-- A dispute with its evidence, newest first. -/
def withEvidence (submittedAt : DisputeEvidence → Int) (db : Data) (dispute : Dispute) : DisputeView where
  dispute := dispute
  evidence := ((db .disputeEvidence).filter (·.disputeId = dispute.id)).mergeSort
    fun a b => submittedAt b ≤ submittedAt a

/-- All disputes, or those in one status. -/
def listAll (openedAt : Dispute → Int) (submittedAt : DisputeEvidence → Int)
    (status : Option DisputeStatus) (limit offset : Option Nat) (db : Data) : Listing DisputeView :=
  let matching : Dispute → Bool := fun d => status.all (d.status = ·)
  { data := (findMany openedAt matching (adminLimit limit) (offset.getD 0) (db .disputes)).map
      (withEvidence submittedAt db)
    total := count matching (db .disputes)
    limit := adminLimit limit
    offset := offset.getD 0 }

/-- One dispute. -/
def get (submittedAt : DisputeEvidence → Int) (id : String) (db : Data) : Except Err DisputeView :=
  match schema.find .disputes id db with
  | none => .error (.notFound "Dispute not found")
  | some dispute => .ok (withEvidence submittedAt db dispute)

end DisputesService

/-! ## Subscriptions -/

/-- The subscription of a user, with what the gateway calls it. -/
def SubscriptionsService.getForUser (userId : String) (db : Data) :
    Option (Subscription × Option GatewaySubscription) :=
  (schema.findBy .subscriptions (.userId userId) db).map fun subscription =>
    (subscription, schema.findBy .gatewaySubscriptions (.subscriptionId subscription.id) db)

end PaymentBilling

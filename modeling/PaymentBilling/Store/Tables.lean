import PaymentBilling.Js
import PaymentBilling.Relational.Laws

/-!
# Store.Tables

The database schema: the tables the services read and write, their columns,
unique columns, foreign keys and column types.  Columns that no modelled
function reads or writes (creation times, e-mail addresses) are left out.

One table is not in Postgres: `gatewayRefunds` is what the payment gateways
have executed.  Its rows are written by a single gateway call each, and like
the gateways' own logs they are kept by idempotency key.
-/

namespace PaymentBilling

open Relational

/-! ## Enumerations -/

inductive SubscriptionStatus
  | ACTIVE | INACTIVE | CANCELED | TRIALING
  deriving DecidableEq, Repr

inductive SubscriptionPlan
  | BASIC | STANDARD | PREMIUM
  deriving DecidableEq, Repr

inductive CreditTransactionType
  | PURCHASE | BONUS | USAGE | REFUND | ADJUSTMENT
  deriving DecidableEq, Repr

inductive LedgerAccountType
  | ASSET | LIABILITY | REVENUE | EXPENSE | EQUITY
  deriving DecidableEq, Repr

inductive LedgerEntryType
  | DEBIT | CREDIT
  deriving DecidableEq, Repr

inductive LedgerTransactionStatus
  | PENDING | ESCROWED | COMPLETED | REFUNDED | CANCELED
  deriving DecidableEq, Repr

inductive PaymentGateway
  | AUTHORIZE_NET | SOLANA
  deriving DecidableEq, Repr

inductive RefundType
  | CREDITS | PAYMENT
  deriving DecidableEq, Repr

inductive RefundStatus
  | PENDING | APPROVED | DENIED | PROCESSED
  deriving DecidableEq, Repr

inductive DisputeStatus
  | OPEN | EVIDENCE_SUBMITTED | WON | LOST
  deriving DecidableEq, Repr

namespace SubscriptionPlan

/-- The label of a plan, as the column stores it. -/
def label : SubscriptionPlan → String
  | BASIC => "BASIC"
  | STANDARD => "STANDARD"
  | PREMIUM => "PREMIUM"

/-- The value as a plan column takes it. -/
def ofJs? : Js → Option SubscriptionPlan
  | .str s =>
    if s = "BASIC" then some BASIC
    else if s = "STANDARD" then some STANDARD
    else if s = "PREMIUM" then some PREMIUM
    else none
  | _ => none

/-- The value as a nullable plan column takes it. -/
def nullableOfJs? : Js → Option (Option SubscriptionPlan)
  | .undefined => some none
  | .null => some none
  | x => (ofJs? x).map some

end SubscriptionPlan

/-- The label of a refund status. -/
def RefundStatus.label : RefundStatus → String
  | PENDING => "PENDING"
  | APPROVED => "APPROVED"
  | DENIED => "DENIED"
  | PROCESSED => "PROCESSED"

/-- The label of a dispute status. -/
def DisputeStatus.label : DisputeStatus → String
  | OPEN => "OPEN"
  | EVIDENCE_SUBMITTED => "EVIDENCE_SUBMITTED"
  | WON => "WON"
  | LOST => "LOST"

/-! ## Rows -/

/-- The entries of a JSON column. -/
abbrev Metadata : Type := List (String × Js)

structure User where
  id : String
  deriving DecidableEq

structure Credits where
  id : String
  userId : String
  balance : Int
  deriving DecidableEq

/-- `metadata.idempotencyKey` is a field of its own, `metadata` is the rest. -/
structure CreditTransaction where
  id : String
  creditsId : String
  amount : Int
  type : CreditTransactionType
  description : String
  idempotencyKey : Option String
  metadata : Metadata
  deriving DecidableEq

structure LedgerAccount where
  id : String
  userId : String
  accountType : LedgerAccountType
  balance : Int
  deriving DecidableEq

structure LedgerTransaction where
  id : String
  transactionId : String
  userId : Option String
  description : String
  status : LedgerTransactionStatus
  metadata : Metadata
  idempotencyKey : Option String
  deriving DecidableEq

structure LedgerEntry where
  id : String
  ledgerTransactionId : String
  accountId : String
  entryType : LedgerEntryType
  amount : Int
  deriving DecidableEq

structure ChargeRecord where
  id : String
  userId : String
  gatewayType : PaymentGateway
  gatewayTransactionId : String
  amountCents : Int
  plan : Option SubscriptionPlan
  deriving DecidableEq

structure ProcessedWebhook where
  id : String
  source : String
  eventType : String
  deriving DecidableEq

structure Subscription where
  id : String
  userId : String
  status : SubscriptionStatus
  plan : SubscriptionPlan
  currentPeriodStart : Option Int
  currentPeriodEnd : Option Int
  cancelAtPeriodEnd : Bool
  canceledAt : Option Int
  deriving DecidableEq

structure GatewaySubscription where
  id : String
  subscriptionId : String
  gatewayType : PaymentGateway
  gatewaySubscriptionId : Option String
  gatewayCustomerId : Option String
  gatewayData : Metadata
  deriving DecidableEq

structure RefundRequest where
  id : String
  userId : String
  type : RefundType
  amount : Int
  reason : String
  status : RefundStatus
  reviewedBy : Option String
  reviewedAt : Option Int
  reviewNotes : Option String
  paymentRefundId : Option String
  gatewayType : Option PaymentGateway
  originalGatewayTransactionId : Option String
  processAttempts : Int
  lastProcessError : Option String
  deriving DecidableEq

structure Dispute where
  id : String
  userId : String
  gateway : PaymentGateway
  gatewayDisputeId : String
  originalTransactionId : String
  amount : Int
  reason : Option String
  status : DisputeStatus
  resolvedAt : Option Int
  ledgerReversalTxnId : Option String
  deriving DecidableEq

structure DisputeEvidence where
  id : String
  disputeId : String
  submittedBy : String
  evidenceType : String
  content : String
  metadata : Metadata
  deriving DecidableEq

structure BillingConfig where
  key : String
  value : String
  deriving DecidableEq

/-- A refund that a gateway has executed: what was asked and what came back. -/
structure GatewayRefund where
  idempotencyKey : String
  gateway : PaymentGateway
  gatewayTransactionId : String
  amount : Int
  gatewayRefundId : String
  refundedAmount : Js
  deriving DecidableEq

/-! ## Tables -/

inductive Table
  | users | credits | creditTransactions | ledgerAccounts | ledgerTransactions | ledgerEntries
  | chargeRecords | processedWebhooks | subscriptions | gatewaySubscriptions | refundRequests
  | disputes | disputeEvidence | billingConfig | gatewayRefunds
  deriving DecidableEq

/-- The rows of a table. -/
abbrev Row : Table → Type
  | .users => User
  | .credits => Credits
  | .creditTransactions => CreditTransaction
  | .ledgerAccounts => LedgerAccount
  | .ledgerTransactions => LedgerTransaction
  | .ledgerEntries => LedgerEntry
  | .chargeRecords => ChargeRecord
  | .processedWebhooks => ProcessedWebhook
  | .subscriptions => Subscription
  | .gatewaySubscriptions => GatewaySubscription
  | .refundRequests => RefundRequest
  | .disputes => Dispute
  | .disputeEvidence => DisputeEvidence
  | .billingConfig => BillingConfig
  | .gatewayRefunds => GatewayRefund

/-- Changes of a subscription: what the gateway reports, a cancellation, and
whether to cancel at the end of the period. -/
inductive SubscriptionPatch
  | activate (plan : SubscriptionPlan) (periodStart periodEnd : Int)
  | cancel (canceledAt : Int)
  | cancelAtPeriodEnd (value : Bool)

/-- A new gateway record; an identifier that was left out stays as it is. -/
structure GatewaySubscriptionPatch where
  gatewayType : PaymentGateway
  gatewaySubscriptionId : Option (Option String)
  gatewayCustomerId : Option (Option String)
  gatewayData : Metadata

/-- Changes of a refund request. -/
inductive RefundPatch
  | review (status : RefundStatus) (reviewedBy : String) (reviewedAt : Int)
      (reviewNotes : Option String)
  | paymentRefundId (gatewayRefundId : String)
  | failed (lastProcessError : String)
  | processed

/-- Changes of a dispute. -/
inductive DisputePatch
  | evidenceSubmitted
  | resolve (status : DisputeStatus) (resolvedAt : Int)
  | ledgerReversalTxnId (id : String)

/-- The changes a row of a table can undergo; the balances only ever change by
an increment. -/
abbrev Patch : Table → Type
  | .credits => Int
  | .ledgerAccounts => Int
  | .subscriptions => SubscriptionPatch
  | .gatewaySubscriptions => GatewaySubscriptionPatch
  | .refundRequests => RefundPatch
  | .disputes => DisputePatch
  | _ => Empty

/-- A value of a unique column or a pair of such columns. -/
inductive UniqueKey
  | userId (userId : String)
  | userAccount (userId : String) (accountType : LedgerAccountType)
  | idempotencyKey (key : String)
  | gatewayCharge (gatewayType : PaymentGateway) (gatewayTransactionId : String)
  | subscriptionId (subscriptionId : String)
  | gatewayDisputeId (gatewayDisputeId : String)
  deriving DecidableEq

/-! ## Changes of rows -/

/-- The columns a patch of a subscription sets. -/
def SubscriptionPatch.apply (p : SubscriptionPatch) (r : Subscription) : Subscription :=
  match p with
  | activate plan periodStart periodEnd =>
    { r with
      plan, status := .ACTIVE, currentPeriodStart := some periodStart
      currentPeriodEnd := some periodEnd, cancelAtPeriodEnd := false, canceledAt := none }
  | cancel canceledAt =>
    { r with
      status := .CANCELED, plan := .BASIC, canceledAt := some canceledAt
      cancelAtPeriodEnd := false }
  | cancelAtPeriodEnd value => { r with cancelAtPeriodEnd := value }

/-- The columns a patch of a gateway record sets. -/
def GatewaySubscriptionPatch.apply (p : GatewaySubscriptionPatch) (r : GatewaySubscription) :
    GatewaySubscription :=
  { r with
    gatewayType := p.gatewayType
    gatewaySubscriptionId := p.gatewaySubscriptionId.getD r.gatewaySubscriptionId
    gatewayCustomerId := p.gatewayCustomerId.getD r.gatewayCustomerId
    gatewayData := p.gatewayData }

/-- The columns a patch of a refund request sets. -/
def RefundPatch.apply (p : RefundPatch) (r : RefundRequest) : RefundRequest :=
  match p with
  | review status reviewedBy reviewedAt reviewNotes =>
    { r with
      status, reviewedBy := some reviewedBy, reviewedAt := some reviewedAt
      reviewNotes := reviewNotes.or r.reviewNotes }
  | paymentRefundId gatewayRefundId => { r with paymentRefundId := some gatewayRefundId }
  | failed lastProcessError =>
    { r with
      processAttempts := r.processAttempts + 1, lastProcessError := some lastProcessError }
  | processed => { r with status := .PROCESSED, lastProcessError := none }

/-- The columns a patch of a dispute sets. -/
def DisputePatch.apply (p : DisputePatch) (r : Dispute) : Dispute :=
  match p with
  | evidenceSubmitted => { r with status := .EVIDENCE_SUBMITTED }
  | resolve status resolvedAt => { r with status, resolvedAt := some resolvedAt }
  | ledgerReversalTxnId id => { r with ledgerReversalTxnId := some id }

/-! ## The schema -/

/-- The range of an integer column. -/
def inInt32 (n : Int) : Bool := -2147483648 ≤ n ∧ n ≤ 2147483647

/-- The schema of the database. -/
def schema : Schema Table String UniqueKey Row Patch where
  id := fun {t} => match t with
    | .users => User.id
    | .credits => Credits.id
    | .creditTransactions => CreditTransaction.id
    | .ledgerAccounts => LedgerAccount.id
    | .ledgerTransactions => LedgerTransaction.id
    | .ledgerEntries => LedgerEntry.id
    | .chargeRecords => ChargeRecord.id
    | .processedWebhooks => ProcessedWebhook.id
    | .subscriptions => Subscription.id
    | .gatewaySubscriptions => GatewaySubscription.id
    | .refundRequests => RefundRequest.id
    | .disputes => Dispute.id
    | .disputeEvidence => DisputeEvidence.id
    | .billingConfig => BillingConfig.key
    | .gatewayRefunds => GatewayRefund.idempotencyKey
  keys := fun {t} => match t with
    | .credits => fun r => [.userId r.userId]
    | .ledgerAccounts => fun r => [.userAccount r.userId r.accountType]
    | .ledgerTransactions => fun r => (r.idempotencyKey.map .idempotencyKey).toList
    | .chargeRecords => fun r => [.gatewayCharge r.gatewayType r.gatewayTransactionId]
    | .subscriptions => fun r => [.userId r.userId]
    | .gatewaySubscriptions => fun r => [.subscriptionId r.subscriptionId]
    | .disputes => fun r => [.gatewayDisputeId r.gatewayDisputeId]
    | _ => fun _ => []
  refs := fun {t} => match t with
    | .credits => fun r => [(.users, r.userId)]
    | .creditTransactions => fun r => [(.credits, r.creditsId)]
    | .ledgerAccounts => fun r => [(.users, r.userId)]
    | .ledgerTransactions => fun r => (r.userId.map (Table.users, ·)).toList
    | .ledgerEntries => fun r =>
      [(.ledgerTransactions, r.ledgerTransactionId), (.ledgerAccounts, r.accountId)]
    | .chargeRecords => fun r => [(.users, r.userId)]
    | .subscriptions => fun r => [(.users, r.userId)]
    | .gatewaySubscriptions => fun r => [(.subscriptions, r.subscriptionId)]
    | .refundRequests => fun r =>
      (.users, r.userId) :: (r.reviewedBy.map (Table.users, ·)).toList
    | .disputes => fun r => [(.users, r.userId)]
    | .disputeEvidence => fun r => [(.disputes, r.disputeId)]
    | _ => fun _ => []
  fixed := fun {t} => match t with
    | .credits => fun r => { r with balance := 0 }
    | .ledgerAccounts => fun r => { r with balance := 0 }
    | .subscriptions => fun r =>
      { r with
        status := .INACTIVE, plan := .BASIC, currentPeriodStart := none, currentPeriodEnd := none
        cancelAtPeriodEnd := false, canceledAt := none }
    | .gatewaySubscriptions => fun r =>
      { r with
        gatewayType := .AUTHORIZE_NET, gatewaySubscriptionId := none, gatewayCustomerId := none
        gatewayData := [] }
    | .refundRequests => fun r =>
      { r with
        status := .PENDING, reviewedBy := none, reviewedAt := none, reviewNotes := none
        paymentRefundId := none, processAttempts := 0, lastProcessError := none }
    | .disputes => fun r =>
      { r with status := .OPEN, resolvedAt := none, ledgerReversalTxnId := none }
    | .users => id
    | .creditTransactions => id
    | .ledgerTransactions => id
    | .ledgerEntries => id
    | .chargeRecords => id
    | .processedWebhooks => id
    | .disputeEvidence => id
    | .billingConfig => id
    | .gatewayRefunds => id
  fits := fun {t} => match t with
    | .credits => fun r => inInt32 r.balance
    | .creditTransactions => fun r => inInt32 r.amount
    | .ledgerAccounts => fun r => inInt32 r.balance
    | .ledgerEntries => fun r => inInt32 r.amount
    | .chargeRecords => fun r => inInt32 r.amountCents
    | .refundRequests => fun r => inInt32 r.amount && inInt32 r.processAttempts
    | .disputes => fun r => inInt32 r.amount
    | _ => fun _ => true
  patch := fun {t} => match t with
    | .credits => fun n r => { r with balance := r.balance + n }
    | .ledgerAccounts => fun n r => { r with balance := r.balance + n }
    | .subscriptions => SubscriptionPatch.apply
    | .gatewaySubscriptions => GatewaySubscriptionPatch.apply
    | .refundRequests => RefundPatch.apply
    | .disputes => DisputePatch.apply
    | .users => nofun
    | .creditTransactions => nofun
    | .ledgerTransactions => nofun
    | .ledgerEntries => nofun
    | .chargeRecords => nofun
    | .processedWebhooks => nofun
    | .disputeEvidence => nofun
    | .billingConfig => nofun
    | .gatewayRefunds => nofun
  id_patch {t} p r := by
    cases t <;> first | exact p.elim | (cases p <;> rfl)
  keys_patch {t} p r := by
    cases t <;> first | exact p.elim | (cases p <;> rfl)
  fixed_patch {t} p r := by
    cases t <;> first | exact p.elim | (cases p <;> rfl)

/-- The databases. -/
abbrev Data : Type := Db Table Row

/-- The writes of the services. -/
abbrev RowWrite : Type := Write Table String Row Patch

/-- The locks of the database. -/
abbrev RowLock : Type := Lock Table String UniqueKey

/-- A database that satisfies the constraints of its schema. -/
structure Database where
  rows : Data
  valid : schema.Valid rows

/-- The database that accepted writes fill. -/
def Database.ofWrites (ws : List RowWrite)
    (h : schema.acceptsAll ws (fun _ => []) = true) : Database :=
  ⟨ws.foldl (fun db w => schema.apply w db) fun _ => [], Schema.valid_nil.applyAll h⟩

end PaymentBilling

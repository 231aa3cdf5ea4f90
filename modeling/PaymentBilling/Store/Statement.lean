import PaymentBilling.Store.Tables
import PaymentBilling.Transact.System

/-!
# Store.Statement

The statements of the services: one for each Prisma call, with the values that
the call passes, and what Postgres and the Prisma client make of it.

Prisma checks the type of every value before it asks the database, also in the
branch of an upsert that is not taken; values that come from a webhook body are
therefore passed as JavaScript values.  An upsert is one atomic statement, and
one whose update is empty does not write an existing row.
-/

namespace PaymentBilling

open Relational

/-! ## Errors -/

/-- The errors that a call can end with. -/
inductive Err
  | badRequest (message : String)
  | notFound (message : String)
  | typeError (message : String)
  | gateway (message : String)
  | validation
  | rejected (violation : Violation)
  | database (message : String)
  deriving DecidableEq

namespace Err

/-- The `code` of a Prisma error. -/
def code : Err → Option String
  | rejected .unique => some "P2002"
  | rejected .foreign => some "P2003"
  | rejected .missing => some "P2025"
  | rejected .range => some "P2020"
  | _ => none

/-- The `message` of an error. -/
def message : Err → String
  | badRequest m => m
  | notFound m => m
  | typeError m => m
  | gateway m => m
  | validation => "Invalid value provided"
  | rejected .unique => "Unique constraint failed"
  | rejected .foreign => "Foreign key constraint violated"
  | rejected .missing => "Record to update not found"
  | rejected .range => "Value out of range for the type"
  | database m => m

end Err

/-! ## The environment -/

/-- A source of identifiers that never repeats one: `cuid()`. -/
structure IdSource where
  next : List String → String
  fresh : ∀ taken, next taken ∉ taken

/-- What a gateway is asked to refund. -/
structure RefundParams where
  gatewayTransactionId : String
  amount : Int
  idempotencyKey : String
  deriving DecidableEq

/-- What a gateway has refunded. -/
structure RefundResult where
  gatewayRefundId : String
  refundedAmount : Js
  deriving DecidableEq

/-- What the world outside adds to a statement: fresh identifiers, the clock,
random bytes, the dates that `new Date(x)` recognises, and the answer of a
gateway to a refund it has not seen.  A gateway may refund and still report an
error: its answer got lost. -/
structure Env where
  ids : IdSource
  now : Int
  randomHex : String
  parseDate : Js → Option Int
  refund : PaymentGateway → RefundParams → RefundResult
  lost : Option String

/-- An identifier longer than all the taken ones together. -/
def longId (taken : List String) : String := String.ofList ('_' :: taken.flatMap String.toList)

theorem longId_fresh (taken : List String) : longId taken ∉ taken := by
  intro h
  have hle : ∀ (l : List String) (s : String), s ∈ l →
      s.toList.length ≤ (l.flatMap String.toList).length := by
    intro l s hs
    induction l with
    | nil => cases hs
    | cons t l ih =>
        rw [List.flatMap_cons, List.length_append]
        cases hs with
        | head => omega
        | tail _ hs => have := ih hs; omega
  have hlong := hle taken _ h
  simp only [longId, String.toList_ofList, List.length_cons] at hlong
  omega

/-- The source that hands out `id` as long as it is free. -/
def IdSource.preferring (id : String) : IdSource where
  next taken := if id ∈ taken then longId taken else id
  fresh taken := by
    split
    · exact longId_fresh taken
    · assumption

/-- An environment without surprises: the next identifier is `id`, and a
gateway refunds what it is asked to. -/
def Env.ordinary (id : String) : Env where
  ids := .preferring id
  now := 0
  randomHex := ""
  parseDate _ := none
  refund _ params := ⟨"gateway_" ++ params.idempotencyKey, .int params.amount⟩
  lost := none

/-! ## Statements -/

structure CreditTransactionCreate where
  creditsId : String
  amount : Js
  type : CreditTransactionType
  description : String
  idempotencyKey : Option String
  metadata : Metadata

structure LedgerTransactionCreate where
  userId : Js
  description : String
  status : LedgerTransactionStatus
  metadata : Metadata
  idempotencyKey : Option String

structure LedgerEntryCreate where
  ledgerTransactionId : String
  accountId : String
  entryType : LedgerEntryType
  amount : Js

structure DisputeCreate where
  userId : Js
  gateway : PaymentGateway
  gatewayDisputeId : String
  originalTransactionId : Js
  amount : Js
  reason : Js

structure DisputeEvidenceCreate where
  disputeId : String
  submittedBy : String
  evidenceType : String
  content : String
  metadata : Metadata

structure RefundCreate where
  userId : String
  type : RefundType
  amount : Js
  reason : String
  gatewayType : Option PaymentGateway
  originalGatewayTransactionId : Option String

structure ChargeRecordUpsert where
  userId : Js
  gatewayType : PaymentGateway
  gatewayTransactionId : Js
  amountCents : Js
  plan : Js

structure SubscriptionUpsert where
  userId : Js
  plan : Js
  currentPeriodStart : Option Js
  currentPeriodEnd : Option Js

structure GatewaySubscriptionUpsert where
  subscriptionId : String
  gatewayType : PaymentGateway
  gatewaySubscriptionId : Js
  gatewayCustomerId : Js
  gatewayData : Metadata

/-- The data of an update of a refund request. -/
inductive RefundUpdate
  | review (status : RefundStatus) (reviewedBy : String) (reviewNotes : Option String)
  | paymentRefundId (gatewayRefundId : String)
  | failed (lastProcessError : String)
  | processed

/-- The data of an update of a dispute. -/
inductive DisputeUpdate
  | evidenceSubmitted
  | resolve (status : DisputeStatus)
  | ledgerReversalTxnId (id : String)

/-- A ledger transaction together with its entries. -/
structure TransactionResponse where
  transaction : LedgerTransaction
  entries : List LedgerEntry
  deriving DecidableEq

/-- The statements, each with the type of its answer. -/
inductive Stmt : Type → Type
  | creditsFindUnique (userId : Js) : Stmt (Option Credits)
  | creditsUpsert (userId : Js) (amount : Js) : Stmt Credits
  | creditsForUpdate (userId : Js) : Stmt (List Credits)
  | creditsUpdate (userId : Js) (decrement : Js) : Stmt Credits
  | creditTransactionFindFirst (idempotencyKey : String) : Stmt (Option CreditTransaction)
  | creditTransactionCreate (data : CreditTransactionCreate) : Stmt CreditTransaction
  | ledgerAccountUpsert (userId : Js) (accountType : LedgerAccountType) : Stmt LedgerAccount
  | ledgerAccountFindUnique (id : String) : Stmt (Option LedgerAccount)
  | ledgerAccountUpdate (id : String) (increment : Js) : Stmt LedgerAccount
  | ledgerTransactionFindFirst (idempotencyKey : String) : Stmt (Option TransactionResponse)
  | ledgerTransactionFindUnique (id : String) : Stmt (Option TransactionResponse)
  | ledgerTransactionCreate (data : LedgerTransactionCreate) : Stmt LedgerTransaction
  | ledgerEntryCreate (data : LedgerEntryCreate) : Stmt LedgerEntry
  | disputeFindByGateway (gatewayDisputeId : String) : Stmt (Option Dispute)
  | disputeFindUnique (id : String) : Stmt (Option Dispute)
  | disputeCreate (data : DisputeCreate) : Stmt Dispute
  | disputeUpdate (id : String) (data : DisputeUpdate) : Stmt Dispute
  | disputeEvidenceCreate (data : DisputeEvidenceCreate) : Stmt DisputeEvidence
  | billingConfigFindUnique (key : String) : Stmt (Option BillingConfig)
  | refundFindUnique (id : String) : Stmt (Option RefundRequest)
  | refundCreate (data : RefundCreate) : Stmt RefundRequest
  | refundUpdate (id : String) (data : RefundUpdate) : Stmt RefundRequest
  | refundCharge (gateway : PaymentGateway) (params : RefundParams) :
      Stmt (Except String RefundResult)
  | subscriptionFindUnique (userId : Js) : Stmt (Option Subscription)
  | subscriptionUpsert (data : SubscriptionUpsert) : Stmt Subscription
  | subscriptionCancel (userId : Js) : Stmt Subscription
  | subscriptionCancelAtPeriodEnd (userId : Js) (value : Bool) : Stmt Subscription
  | gatewaySubscriptionUpsert (data : GatewaySubscriptionUpsert) : Stmt GatewaySubscription
  | chargeRecordUpsert (data : ChargeRecordUpsert) : Stmt ChargeRecord
  | chargeRecordFindLatest (userId : String) (gatewayType : PaymentGateway) :
      Stmt (Option ChargeRecord)
  | processedWebhookFindUnique (id : Js) : Stmt (Option ProcessedWebhook)
  | processedWebhookCreate (id : Js) (source : String) (eventType : Js) : Stmt ProcessedWebhook

/-! ## Their meaning -/

/-- The plans of the statements. -/
abbrev RowPlan (β : Type) : Type := Plan Table String Row Patch β

/-- A value of the type of its column, or the client's validation error. -/
def required {α : Type} : Option α → Except Err α
  | some a => .ok a
  | none => .error .validation

/-- Only read. -/
def reading {β : Type} (answer : β) : Except Err (RowPlan β) := .ok ⟨answer, none⟩

/-- Insert a row and answer with it. -/
def inserting (t : Table) (row : Row t) : Except Err (RowPlan (Row t)) :=
  .ok ⟨row, some (.insert t row)⟩

/-- Change the row that was found and answer with the new one. -/
def updating (t : Table) (p : Patch t) : Option (Row t) → Except Err (RowPlan (Row t))
  | some row => .ok ⟨schema.patch p row, some (.update t (schema.id row) p)⟩
  | none => .error (.rejected .missing)

/-- A fresh identifier for a row of `t`. -/
def Env.freshId (env : Env) (t : Table) (db : Data) : String :=
  env.ids.next ((db t).map schema.id)

/-- A ledger transaction with its entries in `db`. -/
def withEntries (db : Data) (t : LedgerTransaction) : TransactionResponse :=
  ⟨t, (db .ledgerEntries).filter (·.ledgerTransactionId = t.id)⟩

/-- The time of a period boundary: the given date, or a default. -/
def periodDate (env : Env) (default : Int) : Option Js → Except Err Int
  | none => .ok default
  | some x => required (env.parseDate x)

/-- The value as an update of a nullable text column takes it. -/
def textUpdate : Js → Option (Option String)
  | .undefined => none
  | x => some x.string?

/-- The columns that an update of a refund request sets. -/
def RefundUpdate.patch (now : Int) : RefundUpdate → RefundPatch
  | review status reviewedBy reviewNotes => .review status reviewedBy now reviewNotes
  | paymentRefundId id => .paymentRefundId id
  | failed e => .failed e
  | processed => .processed

/-- The columns that an update of a dispute sets. -/
def DisputeUpdate.patch (now : Int) : DisputeUpdate → DisputePatch
  | evidenceSubmitted => .evidenceSubmitted
  | resolve status => .resolve status now
  | ledgerReversalTxnId id => .ledgerReversalTxnId id

/-- What a gateway answers about a refund that it has executed. -/
def gatewayAnswer (lost : Option String) (r : GatewayRefund) : Except String RefundResult :=
  match lost with
  | some m => .error m
  | none => .ok ⟨r.gatewayRefundId, r.refundedAmount⟩

/-- What each statement does to the database it sees. -/
def plan (env : Env) (db : Data) : {β : Type} → Stmt β → Except Err (RowPlan β)
  | _, .creditsFindUnique userId => do
    let userId ← required userId.string?
    reading (schema.findBy .credits (.userId userId) db)
  | _, .creditsUpsert userId amount => do
    let userId ← required userId.string?
    let amount ← required amount.int32?
    match schema.findBy .credits (.userId userId) db with
    | some row => updating .credits amount (some row)
    | none => inserting .credits ⟨env.freshId .credits db, userId, amount⟩
  | _, .creditsForUpdate userId =>
    match userId with
    | .str userId => reading (schema.findBy .credits (.userId userId) db).toList
    | .undefined => reading []
    | .null => reading []
    | _ => .error (.database "operator does not exist")
  | _, .creditsUpdate userId decrement => do
    let userId ← required userId.string?
    let decrement ← required decrement.int32?
    updating .credits (-decrement) (schema.findBy .credits (.userId userId) db)
  | _, .creditTransactionFindFirst key =>
    reading ((db .creditTransactions).find? (·.idempotencyKey = some key))
  | _, .creditTransactionCreate data => do
    let amount ← required data.amount.int32?
    inserting .creditTransactions
      ⟨env.freshId .creditTransactions db, data.creditsId, amount, data.type, data.description,
        data.idempotencyKey, data.metadata⟩
  | _, .ledgerAccountUpsert userId accountType => do
    let userId ← required userId.string?
    match schema.findBy .ledgerAccounts (.userAccount userId accountType) db with
    | some row => reading row
    | none =>
      inserting .ledgerAccounts ⟨env.freshId .ledgerAccounts db, userId, accountType, 0⟩
  | _, .ledgerAccountFindUnique id => reading (schema.find .ledgerAccounts id db)
  | _, .ledgerAccountUpdate id increment => do
    let increment ← required increment.int32?
    updating .ledgerAccounts increment (schema.find .ledgerAccounts id db)
  | _, .ledgerTransactionFindFirst key =>
    reading ((schema.findBy .ledgerTransactions (.idempotencyKey key) db).map (withEntries db))
  | _, .ledgerTransactionFindUnique id =>
    reading ((schema.find .ledgerTransactions id db).map (withEntries db))
  | _, .ledgerTransactionCreate data => do
    let userId ← required data.userId.nullableString?
    inserting .ledgerTransactions
      ⟨env.freshId .ledgerTransactions db, "txn_" ++ env.randomHex ++ "_" ++ toString env.now,
        userId, data.description, data.status, data.metadata, data.idempotencyKey⟩
  | _, .ledgerEntryCreate data => do
    let amount ← required data.amount.int32?
    inserting .ledgerEntries
      ⟨env.freshId .ledgerEntries db, data.ledgerTransactionId, data.accountId, data.entryType,
        amount⟩
  | _, .disputeFindByGateway gatewayDisputeId =>
    reading (schema.findBy .disputes (.gatewayDisputeId gatewayDisputeId) db)
  | _, .disputeFindUnique id => reading (schema.find .disputes id db)
  | _, .disputeCreate data => do
    let userId ← required data.userId.string?
    let originalTransactionId ← required data.originalTransactionId.string?
    let amount ← required data.amount.int32?
    let reason ← required data.reason.nullableString?
    inserting .disputes
      ⟨env.freshId .disputes db, userId, data.gateway, data.gatewayDisputeId,
        originalTransactionId, amount, reason, .OPEN, none, none⟩
  | _, .disputeUpdate id data =>
    updating .disputes (data.patch env.now) (schema.find .disputes id db)
  | _, .disputeEvidenceCreate data =>
    inserting .disputeEvidence
      ⟨env.freshId .disputeEvidence db, data.disputeId, data.submittedBy, data.evidenceType,
        data.content, data.metadata⟩
  | _, .billingConfigFindUnique key => reading (schema.find .billingConfig key db)
  | _, .refundFindUnique id => reading (schema.find .refundRequests id db)
  | _, .refundCreate data => do
    let amount ← required data.amount.int32?
    inserting .refundRequests
      ⟨env.freshId .refundRequests db, data.userId, data.type, amount, data.reason, .PENDING, none,
        none, none, none, data.gatewayType, data.originalGatewayTransactionId, 0, none⟩
  | _, .refundUpdate id data =>
    updating .refundRequests (data.patch env.now) (schema.find .refundRequests id db)
  | _, .refundCharge gateway params =>
    match schema.find .gatewayRefunds params.idempotencyKey db with
    | some row => reading (gatewayAnswer env.lost row)
    | none =>
      let result := env.refund gateway params
      let row : GatewayRefund :=
        ⟨params.idempotencyKey, gateway, params.gatewayTransactionId, params.amount,
          result.gatewayRefundId, result.refundedAmount⟩
      .ok ⟨gatewayAnswer env.lost row, some (.insert .gatewayRefunds row)⟩
  | _, .subscriptionFindUnique userId => do
    let userId ← required userId.string?
    reading (schema.findBy .subscriptions (.userId userId) db)
  | _, .subscriptionUpsert data => do
    let userId ← required data.userId.string?
    let plan ← required (SubscriptionPlan.ofJs? data.plan)
    let periodStart ← periodDate env env.now data.currentPeriodStart
    let periodEnd ← periodDate env (env.now + 30 * 24 * 60 * 60 * 1000) data.currentPeriodEnd
    match schema.findBy .subscriptions (.userId userId) db with
    | some row => updating .subscriptions (.activate plan periodStart periodEnd) (some row)
    | none =>
      inserting .subscriptions
        ⟨env.freshId .subscriptions db, userId, .ACTIVE, plan, some periodStart, some periodEnd,
          false, none⟩
  | _, .subscriptionCancel userId => do
    let userId ← required userId.string?
    updating .subscriptions (.cancel env.now) (schema.findBy .subscriptions (.userId userId) db)
  | _, .subscriptionCancelAtPeriodEnd userId value => do
    let userId ← required userId.string?
    updating .subscriptions (.cancelAtPeriodEnd value)
      (schema.findBy .subscriptions (.userId userId) db)
  | _, .gatewaySubscriptionUpsert data => do
    let gatewaySubscriptionId ← required data.gatewaySubscriptionId.nullableString?
    let gatewayCustomerId ← required data.gatewayCustomerId.nullableString?
    match schema.findBy .gatewaySubscriptions (.subscriptionId data.subscriptionId) db with
    | some row =>
      updating .gatewaySubscriptions
        ⟨data.gatewayType, textUpdate data.gatewaySubscriptionId, textUpdate data.gatewayCustomerId,
          data.gatewayData⟩ (some row)
    | none =>
      inserting .gatewaySubscriptions
        ⟨env.freshId .gatewaySubscriptions db, data.subscriptionId, data.gatewayType,
          gatewaySubscriptionId, gatewayCustomerId, data.gatewayData⟩
  | _, .chargeRecordUpsert data => do
    let userId ← required data.userId.string?
    let gatewayTransactionId ← required data.gatewayTransactionId.string?
    let amountCents ← required data.amountCents.int32?
    let plan ← required (SubscriptionPlan.nullableOfJs? data.plan)
    match
      schema.findBy .chargeRecords (.gatewayCharge data.gatewayType gatewayTransactionId) db with
    | some row => reading row
    | none =>
      inserting .chargeRecords
        ⟨env.freshId .chargeRecords db, userId, data.gatewayType, gatewayTransactionId, amountCents,
          plan⟩
  | _, .chargeRecordFindLatest userId gatewayType =>
    -- rows are kept in the order in which they were created
    reading ((db .chargeRecords).filter fun r =>
      r.userId = userId && r.gatewayType = gatewayType).getLast?
  | _, .processedWebhookFindUnique id => do
    let id ← required id.string?
    reading (schema.find .processedWebhooks id db)
  | _, .processedWebhookCreate id source eventType => do
    let id ← required id.string?
    let eventType ← required eventType.string?
    inserting .processedWebhooks ⟨id, source, eventType⟩

/-- The locks a statement takes besides those of its write. -/
def claims (db : Data) : {β : Type} → Stmt β → List RowLock
  | _, .creditsForUpdate (.str userId) =>
    ((schema.findBy .credits (.userId userId) db).map fun row => Lock.row .credits row.id).toList
  | _, _ => []

/-- The database. -/
def postgres : Transact.Engine Stmt Data RowWrite RowLock Err Env :=
  engine schema (fun s env db => plan env db s) (fun s db => claims db s) (fun _ v => .rejected v)
    .database

/-- Its locking discipline. -/
def locking : Transact.Discipline postgres := discipline

/-- The programs of the services. -/
abbrev Action (α : Type) : Type 1 := Transact.Prog Stmt Err α

/-- Run one statement. -/
abbrev query {α : Type} (s : Stmt α) : Action α := Transact.Prog.exec s

/-- `prisma.$transaction(body)`. -/
abbrev transaction {α : Type} (body : Action α) : Action α := Transact.Prog.transaction body

end PaymentBilling

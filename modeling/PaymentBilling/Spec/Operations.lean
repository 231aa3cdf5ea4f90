import PaymentBilling.Spec.Disputes
import PaymentBilling.Spec.Handlers
import PaymentBilling.Spec.Refunds

/-!
# Spec.Operations

Everything that gateways, users and admins do, as one kind of client.

An operation is performed for one user: the one that the event or the call
names, or the owner of the request or the dispute that it is about.
-/

namespace PaymentBilling

open Relational Transact

/-- An event of a gateway, or a call of the API. -/
inductive Operation
  | card (config : AuthorizeNetConfig) (req : AuthorizeNetRequest)
  | chain (setting : Option String) (event : SolanaEvent)
  | createRefund (userId : String) (data : CreateRefundRequestDto)
  | refund (id : String) (call : RefundCall)
  | dispute (id : String) (call : DisputeCall)
  | cancelAtPeriodEnd (userId : Js)
  | cancelImmediately (userId : Js)
  | reactivate (userId : Js)

namespace Operation

/-- The program of an operation, without its answer. -/
def run : Operation → Action Unit
  | card config req => do
    let _ ← AuthorizeNetWebhookController.handleWebhook config req
    return ()
  | chain setting event => do
    let _ ← SolanaConfirmationController.handleConfirmation setting event
    return ()
  | createRefund userId data => do
    let _ ← RefundsService.createRefundRequest userId data
    return ()
  | refund id call => do
    let _ ← call.run id
    return ()
  | dispute id call => call.run id
  | cancelAtPeriodEnd userId => do
    let _ ← SubscriptionsService.cancelAtPeriodEnd userId
    return ()
  | cancelImmediately userId => do
    let _ ← SubscriptionsService.cancelImmediately userId
    return ()
  | reactivate userId => do
    let _ ← SubscriptionsService.reactivate userId
    return ()

/-- The operation is performed for the user. -/
def PerformedFor (user : String) (db : Data) : Operation → Prop
  | card _ req => ∃ data, req.body.data = some data ∧ data.userId = .str user
  | chain _ event => ∃ data, event.data = some data ∧ data.userId = .str user
  | createRefund userId _ => userId = user
  | refund id _ => ∃ r, schema.find .refundRequests id db = some r ∧ r.userId = user
  | dispute id _ => ∃ d, schema.find .disputes id db = some d ∧ d.userId = user
  | cancelAtPeriodEnd userId => userId = .str user
  | cancelImmediately userId => userId = .str user
  | reactivate userId => userId = .str user

end Operation

/-! ## Tables -/

namespace RefundsService

theorem createRefundRequest_only (userId : String) (data : CreateRefundRequestDto) :
    Only (WritesIn [.refundRequests]) (createRefundRequest userId data) 0 := by
  unfold createRefundRequest
  split
  · exact only_throw _
  split
  · exact only_throw _
  refine only_bind (writesIn_query (by simp [WritesIn, Stmt.writes])) fun subscription => ?_
  split
  · exact only_throw _
  refine only_bind ?_ fun _ => writesIn_query (by simp [WritesIn, Stmt.writes])
  unfold resolveTxnId
  split
  · refine only_bind (writesIn_query (by simp [WritesIn, Stmt.writes])) fun latest => ?_
    cases latest with
    | none => exact only_pure _
    | some _ => exact only_pure _
  · exact only_pure _

/-- The tables that the calls on a request write. -/
def requestTables : List Table := [.refundRequests, .gatewayRefunds] ++ ledgerTables ++ creditTables

theorem findPending_only (id verb : String) : Only (WritesIn []) (findPending id verb) 0 := by
  refine only_bind (writesIn_query (by simp [WritesIn, Stmt.writes])) fun found => ?_
  cases found with
  | none => exact only_throw _
  | some refund =>
      simp only
      split
      · exact only_throw _
      · exact only_pure _

/-- What moves the money of a request. -/
theorem dispatch_writes (refund : RefundRequest) : Only (WritesIn requestTables) (dispatch refund) 0 := by
  have haccount : ∀ userId type, Only (WritesIn requestTables)
      (do let account ← query (.ledgerAccountUpsert userId type); return account.id) 0 :=
    fun _ _ => writesIn_mono (by decide) (LedgerService.accountUpsert_only _ _)
  unfold dispatch
  split
  · exact only_bind (writesIn_mono (by decide) (CreditsService.grantCredits_only ..)) fun _ => only_pure _
  · unfold processPaymentRefund
    split
    · exact only_pure _
    split
    · exact only_throw _
    split
    · exact only_throw _
    refine only_bind (only_bind (writesIn_query (by simp [WritesIn, Stmt.writes, requestTables]))
      fun answer => ?_) fun result => only_transaction (only_bind ?_ fun _ => ?_)
    · cases answer with
      | ok _ => exact only_pure _
      | error _ => exact only_throw _
    · refine only_bind (haccount _ _) fun _ => only_bind (haccount _ _) fun _ => ?_
      refine only_bind (writesIn_mono (by decide) (LedgerService.recordTransaction_only ..)) fun _ => ?_
      exact only_bind (writesIn_query (by simp [WritesIn, Stmt.writes, requestTables])) fun _ => only_pure _
    · exact writesIn_mono (by decide) (deductRefunded_only refund)

theorem refundCall_only (id : String) (call : RefundCall) :
    Only (WritesIn requestTables) (call.run id) 0 := by
  have hupdate : ∀ data, Only (WritesIn requestTables) (query (.refundUpdate id data)) 0 := fun _ =>
    writesIn_query (by simp [WritesIn, Stmt.writes, requestTables])
  cases call with
  | approve adminId notes => exact only_bind (writesIn_mono (by decide) (findPending_only id _)) fun _ => hupdate _
  | deny adminId notes =>
      show Only _ (denyRefund id adminId notes) 0
      unfold denyRefund
      split
      · exact only_throw _
      · exact only_bind (writesIn_mono (by decide) (findPending_only id _)) fun _ => hupdate _
  | process =>
      refine only_bind (writesIn_query (by simp [WritesIn, Stmt.writes])) fun found => ?_
      cases found with
      | none => exact only_throw _
      | some refund =>
          simp only
          split
          · exact only_throw _
          · exact only_bind (only_tryCatch (dispatch_writes refund) fun _ =>
              only_bind (hupdate _) fun _ => only_throw _) fun _ => hupdate _

end RefundsService

namespace DisputesService

/-- The tables that the calls on a dispute write. -/
def disputeTables : List Table := [.disputes, .disputeEvidence] ++ ledgerTables ++ creditTables

theorem handleWon_only (dispute : Dispute) : Only (WritesIn disputeTables) (handleWon dispute) 0 := by
  have haccount : ∀ userId type, Only (WritesIn disputeTables)
      (do let account ← query (.ledgerAccountUpsert userId type); return account.id) 0 :=
    fun _ _ => writesIn_mono (by decide) (LedgerService.accountUpsert_only _ _)
  refine only_transaction (only_bind (haccount _ _) fun _ => only_bind (haccount _ _) fun _ => ?_)
  refine only_bind (writesIn_mono (by decide) (LedgerService.recordTransaction_only ..)) fun _ => ?_
  refine only_bind (writesIn_mono (by decide) (restoreCredits_only dispute)) fun _ => ?_
  exact writesIn_query (by simp [WritesIn, Stmt.writes, disputeTables])

theorem handleLost_only (dispute : Dispute) :
    Only (WritesIn (.disputes :: ledgerTables)) (handleLost dispute) 0 := by
  have haccount : ∀ userId type, Only (WritesIn (.disputes :: ledgerTables))
      (do let account ← query (.ledgerAccountUpsert userId type); return account.id) 0 :=
    fun _ _ => writesIn_mono (by decide) (LedgerService.accountUpsert_only _ _)
  have hvalue : Only (WritesIn (.disputes :: ledgerTables))
      (BillingConfigService.get "chargeback_fee_cents" (toString 1500)) 0 := by
    refine only_bind (writesIn_query (by simp [WritesIn, Stmt.writes])) fun row => ?_
    cases row with
    | none => exact only_pure _
    | some row => exact only_pure _
  refine only_bind (only_bind hvalue fun _ => only_pure _) fun fee => ?_
  refine only_transaction (only_bind (haccount _ _) fun _ => only_bind (haccount _ _) fun _ => ?_)
  refine only_bind (writesIn_mono (by decide) (LedgerService.recordTransaction_only ..)) fun _ => ?_
  exact writesIn_query (by simp [WritesIn, Stmt.writes])

theorem setOutcome_only (id : String) (outcome : DisputeOutcome) :
    Only (WritesIn disputeTables) (setOutcome id outcome) 0 := by
  refine only_bind (writesIn_query (by simp [WritesIn, Stmt.writes])) fun found => ?_
  cases found with
  | none => exact only_throw _
  | some dispute =>
      simp only
      split
      · exact only_throw _
      · cases outcome with
        | WON => exact handleWon_only dispute
        | LOST => exact writesIn_mono (by decide) (handleLost_only dispute)

theorem disputeCall_only (id : String) (call : DisputeCall) :
    Only (WritesIn disputeTables) (call.run id) 0 := by
  cases call with
  | evidence submittedBy evidenceType content metadata =>
      refine only_bind (only_bind (writesIn_query (by simp [WritesIn, Stmt.writes])) fun found => ?_)
        fun _ => only_pure _
      cases found with
      | none => exact only_throw _
      | some dispute =>
          refine only_bind (writesIn_query (by simp [WritesIn, Stmt.writes, disputeTables])) fun _ => ?_
          split
          · exact only_bind (writesIn_query (by simp [WritesIn, Stmt.writes, disputeTables]))
              fun _ => only_pure _
          · exact only_pure _
  | outcome o => exact only_bind (setOutcome_only id o) fun _ => only_pure _

end DisputesService

namespace SubscriptionsService

theorem cancelAtPeriodEnd_only (userId : Js) :
    Only (WritesIn [.subscriptions]) (cancelAtPeriodEnd userId) 0 := by
  refine only_bind (writesIn_query (by simp [WritesIn, Stmt.writes])) fun found => ?_
  cases found with
  | none => exact only_throw _
  | some sub =>
      simp only
      split
      · exact only_throw _
      · exact writesIn_query (by simp [WritesIn, Stmt.writes])

theorem reactivate_only (userId : Js) : Only (WritesIn [.subscriptions]) (reactivate userId) 0 := by
  refine only_bind (writesIn_query (by simp [WritesIn, Stmt.writes])) fun found => ?_
  cases found with
  | none => exact only_throw _
  | some sub =>
      simp only
      split
      · exact only_throw _
      split
      · exact only_throw _
      · exact writesIn_query (by simp [WritesIn, Stmt.writes])

end SubscriptionsService

namespace Operation

/-- The tables that an operation writes. -/
def tables : Operation → List Table
  | card .. => .processedWebhooks :: eventTables
  | chain .. => .processedWebhooks :: eventTables
  | createRefund .. => [.refundRequests]
  | refund .. => RefundsService.requestTables
  | dispute .. => DisputesService.disputeTables
  | cancelAtPeriodEnd _ => [.subscriptions]
  | cancelImmediately _ => [.subscriptions]
  | reactivate _ => [.subscriptions]

theorem only_unit {N : (β : Type) → Stmt β → Prop} {α : Type} {p : Action α} (h : Only N p 0) :
    Only N (do let _ ← p; return ()) 0 := only_bind h fun _ => only_pure _

/-- An operation writes its tables only. -/
theorem run_only (op : Operation) : Only (WritesIn op.tables) op.run 0 := by
  cases op with
  | card config req =>
      refine only_unit (AuthorizeNetWebhookController.handleWebhook_only config req
        (by simp [WritesIn, Stmt.writes]) (by simp [WritesIn, Stmt.writes, tables]) ?_)
      exact writesIn_mono (fun _ ht => .tail _ ht) (AuthorizeNetWebhookController.applyEvent_only _ _)
  | chain setting event =>
      refine only_unit (SolanaConfirmationController.handleConfirmation_only setting event
        (fun _ _ => by simp [WritesIn, Stmt.writes]) (fun _ _ => by simp [WritesIn, Stmt.writes, tables])
        fun data _ => ?_)
      exact writesIn_mono (fun _ ht => .tail _ ht) (SolanaConfirmationController.applyConfirmation_only data)
  | createRefund userId data => exact only_unit (RefundsService.createRefundRequest_only userId data)
  | refund id call => exact only_unit (RefundsService.refundCall_only id call)
  | dispute id call => exact DisputesService.disputeCall_only id call
  | cancelAtPeriodEnd userId => exact only_unit (SubscriptionsService.cancelAtPeriodEnd_only userId)
  | cancelImmediately userId => exact only_unit (SubscriptionsService.cancelImmediately_only userId)
  | reactivate userId => exact only_unit (SubscriptionsService.reactivate_only userId)

end Operation

/-- The operations `ops`, about to run on the database `db`. -/
def operations {ι : Type} (db : Database) (ops : ι → Operation) :
    Sys Stmt Data RowWrite RowLock Err Unit ι :=
  .start db.rows fun i => (ops i).run

end PaymentBilling

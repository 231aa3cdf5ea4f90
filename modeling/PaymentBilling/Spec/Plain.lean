import PaymentBilling.Spec.Chargebacks
import PaymentBilling.Transact.Atomic

/-!
# Spec.Plain

Which parts of a transaction open none of their own.

Everything that runs in the transaction of its caller is: the ledger, the
subscriptions, the disputes and the records of charges.  Only the credits are
not, and a part without them leaves nothing behind when it fails.
-/

namespace PaymentBilling

open Relational Transact

theorem plain_query {α : Type} (s : Stmt α) : Plain (query s) := plain_exec s

namespace LedgerService

theorem plain_accountUpsert (userId : Js) (type : LedgerAccountType) :
    Plain (do let account ← query (.ledgerAccountUpsert userId type); return account.id) :=
  plain_bind (plain_query _) fun _ => plain_pure _

theorem plain_recordEntries (id : String) (entries : List LedgerEntryInput) :
    Plain (recordEntries id entries) := by
  induction entries with
  | nil => exact plain_pure ()
  | cons entry entries ih =>
      refine plain_bind (plain_query _) fun found => ?_
      cases found with
      | none => exact plain_throw _
      | some account =>
          exact plain_bind (plain_query _) fun _ => plain_bind (plain_query _) fun _ => ih

section Record

variable {userId : Js} {description : String} {entries : List LedgerEntryInput}
  {status : LedgerTransactionStatus} {metadata : Metadata}

theorem plain_executeRecord {idempotencyKey : Option String} :
    Plain (executeRecord userId description entries status metadata idempotencyKey) := by
  refine plain_bind (plain_query _) fun created => plain_bind (plain_recordEntries _ _) fun _ =>
    plain_bind (plain_query _) fun found => ?_
  cases found with
  | none => exact plain_throw _
  | some result => exact plain_pure result

theorem plain_validateAndRecord {idempotencyKey : Option String} :
    Plain (validateAndRecord userId description entries status metadata true idempotencyKey) := by
  rw [validateAndRecord]
  split
  · exact plain_throw _
  · exact plain_executeRecord

/-- The ledger joins the transaction of its caller. -/
theorem plain_recordTransaction {idempotencyKey : Option String} :
    Plain (recordTransaction userId description entries status metadata true idempotencyKey) := by
  rw [recordTransaction]
  split
  · exact plain_validateAndRecord
  · refine plain_bind (plain_query _) fun found => ?_
    cases found with
    | none => exact plain_validateAndRecord
    | some existing => exact plain_pure existing

end Record

end LedgerService

theorem DisputesService.plain_bookWon (dispute : Dispute) : Plain (bookWon dispute) :=
  plain_bind (LedgerService.plain_accountUpsert _ _) fun _ =>
    plain_bind (LedgerService.plain_accountUpsert _ _) fun _ => LedgerService.plain_recordTransaction

theorem DisputesService.plain_createDispute (params : DisputeCreate) :
    Plain (createDispute params) := by
  refine plain_bind (plain_query _) fun found => ?_
  cases found with
  | none => exact plain_query _
  | some existing => exact plain_pure existing

theorem SubscriptionsService.plain_createOrUpdateFromGateway (params : GatewayActivation) :
    Plain (createOrUpdateFromGateway params) :=
  plain_bind (plain_query _) fun _ => plain_bind (plain_query _) fun _ => plain_pure _

theorem SubscriptionsService.plain_cancelImmediately (userId : Js) :
    Plain (cancelImmediately userId) := by
  refine plain_bind (plain_query _) fun found => ?_
  cases found with
  | none => exact plain_pure none
  | some _ => exact plain_bind (plain_query _) fun _ => plain_pure _

namespace AuthorizeNetWebhookController

theorem plain_recordCharge (data : AuthorizeNetData) (plan : Js) : Plain (recordCharge data plan) := by
  rw [recordCharge]
  split
  · exact plain_bind (plain_query _) fun _ => plain_pure ()
  · exact plain_pure ()

theorem plain_subscriptionActivated (data : AuthorizeNetData) : Plain (subscriptionActivated data) := by
  rw [subscriptionActivated]
  split
  · exact plain_throw _
  · exact plain_bind (SubscriptionsService.plain_createOrUpdateFromGateway _) fun _ =>
      plain_recordCharge data _

theorem plain_reverseCharge (data : AuthorizeNetData) (dispute : Dispute) :
    Plain (reverseCharge data dispute) :=
  plain_bind (LedgerService.plain_accountUpsert _ _) fun _ =>
    plain_bind (LedgerService.plain_accountUpsert _ _) fun _ =>
      plain_bind LedgerService.plain_recordTransaction fun _ =>
        plain_bind (plain_query _) fun _ => plain_pure ()

theorem plain_openReversal (data : AuthorizeNetData) : Plain (openReversal data) := by
  refine plain_bind (DisputesService.plain_createDispute _) fun dispute => ?_
  split
  · exact plain_pure none
  · exact plain_bind (plain_reverseCharge data dispute) fun _ => plain_pure (some dispute)

end AuthorizeNetWebhookController

theorem SolanaConfirmationController.plain_activateFirst (data : SolanaData) :
    Plain (activateFirst data) := by
  rw [activateFirst]
  split
  · exact plain_bind (SubscriptionsService.plain_createOrUpdateFromGateway _) fun _ => plain_pure ()
  · exact plain_pure ()

end PaymentBilling

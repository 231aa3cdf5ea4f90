import PaymentBilling.Services.Disputes
import PaymentBilling.Services.Refunds
import PaymentBilling.Spec.Credits
import PaymentBilling.Spec.Ledger
import PaymentBilling.Webhooks.AuthorizeNet
import PaymentBilling.Webhooks.Solana

/-!
# Spec.Writes

The tables that the parts of the services write.

Every part closes the transactions it opens, so it can stand inside another
one; what it leaves alone there follows from its tables.
-/

namespace PaymentBilling

open Transact

/-- A single statement that writes a table in `T`, if any. -/
theorem writesIn_query {T : List Table} {α : Type} {s : Stmt α} (h : WritesIn T α s) :
    Only (WritesIn T) (query s) 0 := only_exec h

theorem writesIn_mono {T T' : List Table} (hT : ∀ t ∈ T, t ∈ T') {α : Type} {p : Action α} {d : Nat}
    (h : Only (WritesIn T) p d) : Only (WritesIn T') p d :=
  h.mono fun _ _ hs t ht => hT t (hs t ht)

/-- What closes the transactions it opens may be put anywhere. -/
theorem anyStmt_of_only {N : (β : Type) → Stmt β → Prop} {α : Type} {p : Action α} {d : Nat}
    (h : Only N p d) : Only anyStmt p d := h.mono fun _ _ _ => trivial

/-- The tables that the side effects of the gateways' events write. -/
def eventTables : List Table :=
  [.chargeRecords, .subscriptions, .gatewaySubscriptions, .disputes] ++ ledgerTables ++ creditTables

namespace SubscriptionsService

theorem createOrUpdateFromGateway_only (params : GatewayActivation) :
    Only (WritesIn [.subscriptions, .gatewaySubscriptions]) (createOrUpdateFromGateway params) 0 := by
  refine only_bind (writesIn_query (by simp [WritesIn, Stmt.writes])) fun _ => ?_
  refine only_bind (writesIn_query (by simp [WritesIn, Stmt.writes])) fun _ => ?_
  exact only_pure _

theorem cancelImmediately_only (userId : Js) :
    Only (WritesIn [.subscriptions]) (cancelImmediately userId) 0 := by
  refine only_bind (writesIn_query (by simp [WritesIn, Stmt.writes])) fun found => ?_
  cases found with
  | none => exact only_pure _
  | some _ =>
      exact only_bind (writesIn_query (by simp [WritesIn, Stmt.writes])) fun _ => only_pure _

end SubscriptionsService

namespace DisputesService

theorem restoreCredits_only (dispute : Dispute) :
    Only (WritesIn creditTables) (restoreCredits dispute) 0 :=
  only_tryCatch (only_bind (CreditsService.grantCredits_only ..) fun _ => only_pure _)
    fun _ => only_pure _

theorem createDispute_only (params : DisputeCreate) :
    Only (WritesIn [.disputes]) (createDispute params) 0 := by
  refine only_bind (writesIn_query (by simp [WritesIn, Stmt.writes])) fun found => ?_
  cases found with
  | none => exact writesIn_query (by simp [WritesIn, Stmt.writes])
  | some _ => exact only_pure _

end DisputesService

namespace RefundsService

theorem deductRefunded_only (refund : RefundRequest) :
    Only (WritesIn creditTables) (deductRefunded refund) 0 :=
  only_tryCatch (only_bind (CreditsService.deductCredits_only ..) fun _ => only_pure _)
    fun _ => only_pure _

end RefundsService

namespace AuthorizeNetWebhookController

theorem recordCharge_only (data : AuthorizeNetData) (plan : Js) :
    Only (WritesIn [.chargeRecords]) (recordCharge data plan) 0 := by
  unfold recordCharge
  split
  · exact only_bind (writesIn_query (by simp [WritesIn, Stmt.writes])) fun _ => only_pure _
  · exact only_pure _

theorem subscriptionActivated_only (data : AuthorizeNetData) :
    Only (WritesIn [.subscriptions, .gatewaySubscriptions, .chargeRecords])
      (subscriptionActivated data) 0 := by
  unfold subscriptionActivated
  split
  · exact only_throw _
  · refine only_bind ?_ fun _ => writesIn_mono (by decide) (recordCharge_only _ _)
    exact writesIn_mono (by decide) (SubscriptionsService.createOrUpdateFromGateway_only _)

theorem chargeApproved_only (data : AuthorizeNetData) :
    Only (WritesIn (.chargeRecords :: creditTables)) (chargeApproved data) 0 := by
  have hrecord : Only (WritesIn (.chargeRecords :: creditTables)) (recordCharge data .undefined) 0 :=
    writesIn_mono (by decide) (recordCharge_only _ _)
  unfold chargeApproved
  split
  · split
    · exact only_pure _
    · exact only_bind (writesIn_mono (by decide) (CreditsService.grantCredits_only ..))
        fun _ => hrecord
  · exact hrecord

theorem chargeRefunded_only (data : AuthorizeNetData) :
    Only (WritesIn creditTables) (chargeRefunded data) 0 := by
  unfold chargeRefunded
  split
  · split
    · exact only_pure _
    · exact only_tryCatch (only_bind (CreditsService.deductCredits_only ..) fun _ => only_pure _)
        fun _ => only_pure _
  · exact only_pure _

theorem deductDisputed_only (data : AuthorizeNetData) (dispute : Dispute) :
    Only (WritesIn creditTables) (deductDisputed data dispute) 0 :=
  only_tryCatch (only_bind (CreditsService.deductCredits_only ..) fun _ => only_pure _)
    fun _ => only_pure _

theorem reverseCharge_only (data : AuthorizeNetData) (dispute : Dispute) :
    Only (WritesIn (.disputes :: ledgerTables)) (reverseCharge data dispute) 0 := by
  have haccount : ∀ userId type, Only (WritesIn (.disputes :: ledgerTables))
      (do let account ← query (.ledgerAccountUpsert userId type); return account.id) 0 :=
    fun _ _ => writesIn_mono (by decide) (LedgerService.accountUpsert_only _ _)
  refine only_bind (haccount _ _) fun _ => only_bind (haccount _ _) fun _ => ?_
  refine only_bind (writesIn_mono (by decide) (LedgerService.recordTransaction_only ..)) fun _ => ?_
  exact only_bind (writesIn_query (by simp [WritesIn, Stmt.writes])) fun _ => only_pure _

/-- What a chargeback writes, besides the record of its event. -/
theorem chargebackReceived_only (data : AuthorizeNetData) :
    Only (WritesIn (.disputes :: ledgerTables ++ creditTables)) (chargebackReceived data) 0 := by
  refine only_bind (writesIn_mono (by decide) (DisputesService.createDispute_only _)) fun dispute => ?_
  split
  · exact only_pure _
  · exact only_bind (writesIn_mono (by decide) (reverseCharge_only _ _)) fun _ =>
      writesIn_mono (by decide) (deductDisputed_only _ _)

/-- The side effects of an event stay inside its transaction and write no
record of it. -/
theorem applyEvent_only (type : Js) (data : Option AuthorizeNetData) :
    Only (WritesIn eventTables) (applyEvent type data) 0 := by
  have hcancel : ∀ userId, Only (WritesIn eventTables) (do
      let _ ← SubscriptionsService.cancelImmediately userId
      return ()) 0 := fun userId =>
    only_bind (writesIn_mono (by decide) (SubscriptionsService.cancelImmediately_only _))
      fun _ => only_pure _
  unfold applyEvent
  split
  · exact only_pure _
  · split
    · exact only_throw _
    · split
      · exact writesIn_mono (by decide) (subscriptionActivated_only _)
      · exact writesIn_mono (by decide) (subscriptionActivated_only _)
      · exact hcancel _
      · exact writesIn_mono (by decide) (chargeApproved_only _)
      · exact writesIn_mono (by decide) (chargeRefunded_only _)
      · exact hcancel _
      · exact writesIn_mono (by decide) (chargebackReceived_only _)
      · exact only_pure _

end AuthorizeNetWebhookController

namespace SolanaConfirmationController

/-- What a settled transaction pays for: the credits, and the record of the
charge. -/
def creditPayment (data : SolanaData) : Action Unit := do
  let _ ← CreditsService.addCredits data.userId data.amount .PURCHASE
    ("Solana on-chain payment " ++ shortHash data.txHash.text ++ "...")
    ("solana_charge_" ++ data.txHash.text) [("solanaTxHash", data.txHash)]
  let _ ← query (.chargeRecordUpsert
    { userId := data.userId, gatewayType := .SOLANA, gatewayTransactionId := data.txHash
      amountCents := data.amount, plan := data.plan })
  return ()

/-- The subscription that comes with it. -/
def activation (data : SolanaData) : GatewayActivation where
  userId := data.userId
  plan := data.plan
  gatewayType := .SOLANA
  gatewaySubscriptionId := data.reference.or data.txHash
  gatewayCustomerId := data.userId
  gatewayData := [("txHash", data.txHash), ("chain", .str "SOLANA")]

theorem applyConfirmation_eq (data : SolanaData) :
    applyConfirmation data =
      if data.plan.truthy then
        SubscriptionsService.createOrUpdateFromGateway (activation data) >>= fun _ =>
          creditPayment data
      else creditPayment data := rfl

/-- The subscription of a settled transaction, if it pays for a plan. -/
def activateFirst (data : SolanaData) : Action Unit :=
  if data.plan.truthy then
    SubscriptionsService.createOrUpdateFromGateway (activation data) >>= fun _ => pure ()
  else pure ()

theorem applyConfirmation_first (data : SolanaData) :
    applyConfirmation data = activateFirst data >>= fun _ => creditPayment data := by
  rw [applyConfirmation_eq, activateFirst]
  split
  · rw [Prog.bind_assoc]
    rfl
  · rfl

theorem creditPayment_only (data : SolanaData) :
    Only (WritesIn (.chargeRecords :: creditTables)) (creditPayment data) 0 := by
  refine only_bind (writesIn_mono (by decide) (CreditsService.grantCredits_only ..)) fun _ => ?_
  exact only_bind (writesIn_query (by simp [WritesIn, Stmt.writes])) fun _ => only_pure _

/-- The side effects of a settled transaction stay inside its transaction and
write no record of it. -/
theorem applyConfirmation_only (data : SolanaData) :
    Only (WritesIn eventTables) (applyConfirmation data) 0 := by
  rw [applyConfirmation_eq]
  split
  · refine only_bind ?_ fun _ => writesIn_mono (by decide) (creditPayment_only data)
    exact writesIn_mono (by decide) (SubscriptionsService.createOrUpdateFromGateway_only _)
  · exact writesIn_mono (by decide) (creditPayment_only data)

end SolanaConfirmationController

end PaymentBilling

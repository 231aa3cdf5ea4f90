import PaymentBilling.Spec.Writes

/-!
# Spec.OffLedger

The parts of the services that do not write the ledger.
-/

namespace PaymentBilling

open Transact

/-- The statement does not write the ledger. -/
def OffLedger (β : Type) (s : Stmt β) : Prop := ∀ t, s.writes = some t → t ∉ ledgerTables

theorem offLedger_of_exec :
    ∀ β (s : Stmt β), OffLedger β s → ∀ env db b ws, postgres.exec s env db = .ok (b, ws) →
      ∀ w ∈ ws, w.table ∉ ledgerTables :=
  fun _ _ hs _ _ _ _ h w hw => hs w.table (table_of_exec h w hw)

/-- A single statement that does not write the ledger. -/
theorem offLedger_query {α : Type} {s : Stmt α} (h : OffLedger α s) : Only OffLedger (query s) 0 :=
  only_exec h

theorem offLedger_of_writesIn {T : List Table} (hT : ∀ t ∈ T, t ∉ ledgerTables) {α : Type}
    {p : Action α} {d : Nat} (h : Only (WritesIn T) p d) : Only OffLedger p d :=
  h.mono fun _ _ hs t ht => hT t (hs t ht)

theorem grantCredits_offLedger (userId amount : Js) (type : CreditTransactionType)
    (description key : String) (metadata : Metadata) : Only OffLedger
      (CreditsService.grantCredits userId amount type description key metadata) 0 :=
  offLedger_of_writesIn (by decide) (CreditsService.grantCredits_only ..)

theorem cancelImmediately_offLedger (userId : Js) :
    Only OffLedger (SubscriptionsService.cancelImmediately userId) 0 :=
  offLedger_of_writesIn (by decide) (SubscriptionsService.cancelImmediately_only _)

theorem createOrUpdateFromGateway_offLedger (params : GatewayActivation) :
    Only OffLedger (SubscriptionsService.createOrUpdateFromGateway params) 0 :=
  offLedger_of_writesIn (by decide) (SubscriptionsService.createOrUpdateFromGateway_only _)

theorem restoreCredits_offLedger (dispute : Dispute) :
    Only OffLedger (DisputesService.restoreCredits dispute) 0 :=
  offLedger_of_writesIn (by decide) (DisputesService.restoreCredits_only _)

theorem deductRefunded_offLedger (refund : RefundRequest) :
    Only OffLedger (RefundsService.deductRefunded refund) 0 :=
  offLedger_of_writesIn (by decide) (RefundsService.deductRefunded_only _)

theorem createDispute_offLedger (params : DisputeCreate) :
    Only OffLedger (DisputesService.createDispute params) 0 :=
  offLedger_of_writesIn (by decide) (DisputesService.createDispute_only _)

namespace AuthorizeNetWebhookController

theorem subscriptionActivated_offLedger (data : AuthorizeNetData) :
    Only OffLedger (subscriptionActivated data) 0 :=
  offLedger_of_writesIn (by decide) (subscriptionActivated_only _)

theorem chargeApproved_offLedger (data : AuthorizeNetData) :
    Only OffLedger (chargeApproved data) 0 :=
  offLedger_of_writesIn (by decide) (chargeApproved_only _)

theorem chargeRefunded_offLedger (data : AuthorizeNetData) :
    Only OffLedger (chargeRefunded data) 0 :=
  offLedger_of_writesIn (by decide) (chargeRefunded_only _)

theorem deductDisputed_offLedger (data : AuthorizeNetData) (dispute : Dispute) :
    Only OffLedger (deductDisputed data dispute) 0 :=
  offLedger_of_writesIn (by decide) (deductDisputed_only _ _)

end AuthorizeNetWebhookController

theorem applyConfirmation_offLedger (data : SolanaData) :
    Only OffLedger (SolanaConfirmationController.applyConfirmation data) 0 := by
  have hpayment : Only OffLedger (SolanaConfirmationController.creditPayment data) 0 :=
    offLedger_of_writesIn (by decide) (SolanaConfirmationController.creditPayment_only data)
  rw [SolanaConfirmationController.applyConfirmation_eq]
  split
  · exact only_bind (createOrUpdateFromGateway_offLedger _) fun _ => hpayment
  · exact hpayment

end PaymentBilling

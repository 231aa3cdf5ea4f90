import PaymentBilling.Spec.Chargebacks
import PaymentBilling.Spec.Operations
import PaymentBilling.Transact.Authors

/-!
# Spec.Keyed

The idempotency keys that the parts of the services look up and write.

A part that moves credits looks up one key of the credit log and logs under
that key, and a part that posts to the ledger does the same there; all the
other statements name no key.
-/

namespace PaymentBilling

open Relational Transact

/-- The type of the credit row that a refund of the type logs. -/
def RefundType.creditType : RefundType → CreditTransactionType
  | CREDITS => .REFUND
  | PAYMENT => .USAGE

/-- The statement looks up no key of the credit log but that of `credit` and
logs under it, with its type, only; and likewise for the ledger. -/
def Keyed (credit : Option (String × CreditTransactionType)) (ledger : Option String) :
    (β : Type) → Stmt β → Prop
  | _, .creditTransactionFindFirst key => ∃ type, credit = some (key, type)
  | _, .creditTransactionCreate data =>
    ∃ key, credit = some (key, data.type) ∧ data.idempotencyKey = some key
  | _, .ledgerTransactionFindFirst key => ledger = some key
  | _, .ledgerTransactionCreate data => ∃ key, ledger = some key ∧ data.idempotencyKey = some key
  | _, _ => True

section Keyed

variable {credit : Option (String × CreditTransactionType)} {ledger : Option String}

/-- A statement that names no key. -/
theorem keyed_query {α : Type} {s : Stmt α} (h : Keyed credit ledger α s) :
    Only (Keyed credit ledger) (query s) 0 := only_exec h

/-- One that is followed by a result. -/
theorem keyed_return {α β : Type} {p : Action α} {f : α → β} (h : Only (Keyed credit ledger) p 0) :
    Only (Keyed credit ledger) (p >>= fun a => pure (f a)) 0 := only_bind h fun _ => only_pure _

/-! ## Credits -/

namespace CreditsService

theorem shortCircuit_keyed (userId : Js) (existing : CreditTransaction) :
    Only (Keyed credit ledger) (shortCircuit userId existing) 0 :=
  keyed_return (keyed_query trivial)

/-- A grant names the key that it is given. -/
theorem grantCredits_keyed {key : String} {type : CreditTransactionType}
    (hkey : credit = some (key, type)) (userId amount : Js) (description : String)
    (metadata : Metadata) :
    Only (Keyed credit ledger)
      (grantCredits userId amount type description key metadata) 0 := by
  unfold grantCredits
  split
  · exact only_throw _
  · refine only_transaction (only_bind (keyed_query ⟨_, hkey⟩) fun found => ?_)
    cases found with
    | some existing => exact shortCircuit_keyed userId existing
    | none =>
        refine only_bind (keyed_query trivial) fun _ => ?_
        exact keyed_return (keyed_query ⟨key, hkey, rfl⟩)

theorem deductLocked_keyed {key : String} (hkey : credit = some (key, .USAGE)) (userId amount : Js)
    (description : String) (metadata : Metadata) :
    Only (Keyed credit ledger) (deductLocked userId amount description (some key) metadata) 0 := by
  refine only_bind (keyed_query trivial) fun rows => ?_
  cases rows with
  | nil => exact only_throw _
  | cons locked rest =>
      simp only
      split
      · exact only_throw _
      · refine only_bind (keyed_query trivial) fun _ => ?_
        exact keyed_return (keyed_query ⟨key, hkey, rfl⟩)

/-- A deduction with a key names it. -/
theorem deductCredits_keyed {key : String} (hkey : credit = some (key, .USAGE))
    (hgiven : key ≠ "") (userId amount : Js) (description : String) (metadata : Metadata) :
    Only (Keyed credit ledger)
      (deductCredits userId amount description (some key) metadata) 0 := by
  have hsome : givenKey (some key) = some key := Option.filter_some_pos (decide_eq_true hgiven)
  unfold deductCredits
  split
  · exact only_throw _
  · rw [hsome]
    refine only_transaction (only_bind (keyed_query ⟨_, hkey⟩) fun found => ?_)
    cases found with
    | some existing => exact shortCircuit_keyed userId existing
    | none => exact deductLocked_keyed hkey ..

end CreditsService

/-! ## The ledger -/

namespace LedgerService

theorem recordEntries_keyed (id : String) (entries : List LedgerEntryInput) :
    Only (Keyed credit ledger) (recordEntries id entries) 0 := by
  induction entries with
  | nil => exact only_pure _
  | cons entry entries ih =>
      refine only_bind (keyed_query trivial) fun found => ?_
      cases found with
      | none => exact only_throw _
      | some account =>
          refine only_bind (keyed_query trivial) fun _ => ?_
          exact only_bind (keyed_query trivial) fun _ => ih

/-- Recording a transaction names the key that it is given. -/
theorem recordTransaction_keyed {key : String} (hkey : ledger = some key) (hgiven : key ≠ "")
    (userId : Js) (description : String) (entries : List LedgerEntryInput)
    (status : LedgerTransactionStatus) (metadata : Metadata) (externalTx : Bool) :
    Only (Keyed credit ledger)
      (recordTransaction userId description entries status metadata externalTx (some key)) 0 := by
  have hsome : (some key).filter (· ≠ "") = some key :=
    Option.filter_some_pos (decide_eq_true hgiven)
  have hexecute : Only (Keyed credit ledger)
      (executeRecord userId description entries status metadata (some key)) 0 := by
    refine only_bind (keyed_query ⟨key, hkey, rfl⟩) fun txn => ?_
    refine only_bind (recordEntries_keyed _ _) fun _ => ?_
    refine only_bind (keyed_query trivial) fun found => ?_
    cases found with
    | some response => exact only_pure _
    | none => exact only_throw _
  unfold recordTransaction
  rw [hsome]
  refine only_bind (keyed_query hkey) fun found => ?_
  cases found with
  | some response => exact only_pure _
  | none =>
      simp only
      unfold validateAndRecord
      split
      · exact only_throw _
      · split
        · exact hexecute
        · exact only_transaction hexecute

end LedgerService

/-! ## Refunds -/

namespace RefundsService

theorem createRefundRequest_keyed (userId : String) (data : CreateRefundRequestDto) :
    Only (Keyed credit ledger) (createRefundRequest userId data) 0 := by
  unfold createRefundRequest
  split
  · exact only_throw _
  split
  · exact only_throw _
  refine only_bind (keyed_query trivial) fun subscription => ?_
  split
  · exact only_throw _
  refine only_bind ?_ fun _ => keyed_query trivial
  unfold resolveTxnId
  split
  · refine only_bind (keyed_query trivial) fun latest => ?_
    cases latest with
    | none => exact only_pure _
    | some _ => exact only_pure _
  · exact only_pure _

theorem findPending_keyed (id verb : String) :
    Only (Keyed credit ledger) (findPending id verb) 0 := by
  refine only_bind (keyed_query trivial) fun found => ?_
  cases found with
  | none => exact only_throw _
  | some refund =>
      simp only
      split
      · exact only_throw _
      · exact only_pure _

theorem denyRefund_keyed (id adminId notes : String) :
    Only (Keyed credit ledger) (denyRefund id adminId notes) 0 := by
  unfold denyRefund
  split
  · exact only_throw _
  · exact only_bind (findPending_keyed id _) fun _ => keyed_query trivial

theorem processCreditRefund_keyed (refund : RefundRequest)
    (hkey : credit = some (refundKey refund.id, .REFUND)) :
    Only (Keyed credit ledger) (processCreditRefund refund) 0 :=
  keyed_return (CreditsService.grantCredits_keyed hkey ..)

theorem recordRefund_keyed (refund : RefundRequest) (result : RefundResult)
    (hcredit : credit = some (refundKey refund.id, .USAGE))
    (hledger : ledger = some (refundLedgerKey refund.id)) :
    Only (Keyed credit ledger) (recordRefund refund result) 0 := by
  refine only_transaction (only_bind ?_ fun _ => only_tryCatch ?_ fun _ => only_pure _)
  · refine only_bind (keyed_return (keyed_query trivial)) fun _ => ?_
    refine only_bind (keyed_return (keyed_query trivial)) fun _ => ?_
    refine only_bind (LedgerService.recordTransaction_keyed hledger (refundLedgerKey_ne _) ..)
      fun _ => ?_
    exact keyed_return (keyed_query trivial)
  · exact keyed_return (CreditsService.deductCredits_keyed hcredit (append_ne (by decide)) ..)

/-- What moves the money of a request names the keys of the request. -/
theorem dispatch_keyed (refund : RefundRequest)
    (hcredit : credit = some (refundKey refund.id, refund.type.creditType))
    (hledger : refund.type = .PAYMENT → ledger = some (refundLedgerKey refund.id)) :
    Only (Keyed credit ledger) (dispatch refund) 0 := by
  unfold dispatch
  split
  · next htype =>
    rw [htype] at hcredit
    exact processCreditRefund_keyed refund hcredit
  · next htype =>
    rw [htype] at hcredit
    unfold processPaymentRefund
    split
    · exact only_pure _
    split
    · exact only_throw _
    split
    · exact only_throw _
    refine only_bind (only_bind (keyed_query trivial) fun answer => ?_) fun result =>
      recordRefund_keyed refund result hcredit (hledger htype)
    cases answer with
    | ok _ => exact only_pure _
    | error _ => exact only_throw _

end RefundsService

/-! ## Disputes -/

namespace DisputesService

theorem handleWon_keyed (dispute : Dispute) (hcredit : credit = some ("dispute_won_" ++ dispute.id, .REFUND))
    (hledger : ledger = some (outcomeKey dispute.id .WON)) :
    Only (Keyed credit ledger) (handleWon dispute) 0 := by
  refine only_transaction ?_
  refine only_bind (keyed_return (keyed_query trivial)) fun _ => ?_
  refine only_bind (keyed_return (keyed_query trivial)) fun _ => ?_
  refine only_bind (LedgerService.recordTransaction_keyed hledger (outcomeKey_ne _ _) ..) fun _ => ?_
  refine only_bind (only_tryCatch ?_ fun _ => only_pure _) fun _ => keyed_query trivial
  exact keyed_return (CreditsService.grantCredits_keyed hcredit ..)

theorem handleLost_keyed (dispute : Dispute)
    (hledger : ledger = some (outcomeKey dispute.id .LOST)) :
    Only (Keyed credit ledger) (handleLost dispute) 0 := by
  refine only_bind (keyed_return (only_bind (keyed_query trivial) fun row => ?_)) fun fee => ?_
  · cases row with
    | none => exact only_pure _
    | some row => exact only_pure _
  refine only_transaction ?_
  refine only_bind (keyed_return (keyed_query trivial)) fun _ => ?_
  refine only_bind (keyed_return (keyed_query trivial)) fun _ => ?_
  refine only_bind (LedgerService.recordTransaction_keyed hledger (outcomeKey_ne _ _) ..) fun _ => ?_
  exact keyed_query trivial

end DisputesService

theorem DisputesService.attachEvidence_keyed (params : DisputeEvidenceCreate) :
    Only (Keyed credit ledger) (attachEvidence params) 0 := by
  refine only_bind (keyed_query trivial) fun found => ?_
  cases found with
  | none => exact only_throw _
  | some dispute =>
      refine only_bind (keyed_query trivial) fun _ => ?_
      split
      · exact keyed_return (keyed_query trivial)
      · exact only_pure _

/-! ## Events -/

namespace AuthorizeNetWebhookController

theorem recordCharge_keyed (data : AuthorizeNetData) (plan : Js) :
    Only (Keyed credit ledger) (recordCharge data plan) 0 := by
  unfold recordCharge
  split
  · exact keyed_return (keyed_query trivial)
  · exact only_pure _

theorem subscriptionActivated_keyed (data : AuthorizeNetData) :
    Only (Keyed credit ledger) (subscriptionActivated data) 0 := by
  unfold subscriptionActivated
  split
  · exact only_throw _
  · refine only_bind (only_bind (keyed_query trivial) fun _ => ?_) fun _ => recordCharge_keyed _ _
    exact keyed_return (keyed_query trivial)

theorem chargeApproved_keyed (data : AuthorizeNetData)
    (hcredit : credit = some ("authorize_net_charge_" ++ data.transactionId.text, .PURCHASE)) :
    Only (Keyed credit ledger) (chargeApproved data) 0 := by
  unfold chargeApproved
  split
  · split
    · exact only_pure _
    · exact only_bind (CreditsService.grantCredits_keyed hcredit ..) fun _ => recordCharge_keyed _ _
  · exact recordCharge_keyed _ _

theorem chargeRefunded_keyed (data : AuthorizeNetData)
    (hcredit : credit = some ("authorize_net_refund_" ++ data.transactionId.text, .USAGE)) :
    Only (Keyed credit ledger) (chargeRefunded data) 0 := by
  unfold chargeRefunded
  split
  · split
    · exact only_pure _
    · exact only_tryCatch (keyed_return (CreditsService.deductCredits_keyed hcredit
        (append_ne (by decide)) ..)) fun _ => only_pure _
  · exact only_pure _

theorem chargebackReceived_keyed (data : AuthorizeNetData)
    (hcredit : credit = some ("chargeback_" ++ data.transactionId.text, .USAGE))
    (hledger : ledger = some (reversalKey data.transactionId.text)) :
    Only (Keyed credit ledger) (chargebackReceived data) 0 := by
  refine only_bind (only_bind (keyed_query trivial) fun found => ?_) fun dispute => ?_
  · cases found with
    | none => exact keyed_query trivial
    | some _ => exact only_pure _
  split
  · exact only_pure _
  refine only_bind ?_ fun _ => only_tryCatch (keyed_return
    (CreditsService.deductCredits_keyed hcredit (append_ne (by decide)) ..)) fun _ => only_pure _
  refine only_bind (keyed_return (keyed_query trivial)) fun _ => ?_
  refine only_bind (keyed_return (keyed_query trivial)) fun _ => ?_
  refine only_bind (LedgerService.recordTransaction_keyed hledger (reversalKey_ne _) ..) fun _ => ?_
  exact keyed_return (keyed_query trivial)

end AuthorizeNetWebhookController

theorem SolanaConfirmationController.applyConfirmation_keyed (data : SolanaData)
    (hcredit : credit = some ("solana_charge_" ++ data.txHash.text, .PURCHASE)) :
    Only (Keyed credit ledger) (applyConfirmation data) 0 := by
  have hpayment : Only (Keyed credit ledger) (creditPayment data) 0 :=
    only_bind (CreditsService.grantCredits_keyed hcredit ..) fun _ =>
      keyed_return (keyed_query trivial)
  rw [applyConfirmation_eq]
  split
  · refine only_bind (only_bind (keyed_query trivial) fun _ => ?_) fun _ => hpayment
    exact keyed_return (keyed_query trivial)
  · exact hpayment

/-! ## Subscriptions -/

namespace SubscriptionsService

theorem cancelImmediately_keyed (userId : Js) :
    Only (Keyed credit ledger) (cancelImmediately userId) 0 := by
  refine only_bind (keyed_query trivial) fun found => ?_
  cases found with
  | none => exact only_pure _
  | some _ => exact keyed_return (keyed_query trivial)

theorem cancelAtPeriodEnd_keyed (userId : Js) :
    Only (Keyed credit ledger) (cancelAtPeriodEnd userId) 0 := by
  refine only_bind (keyed_query trivial) fun found => ?_
  cases found with
  | none => exact only_throw _
  | some sub =>
      simp only
      split
      · exact only_throw _
      · exact keyed_query trivial

theorem reactivate_keyed (userId : Js) : Only (Keyed credit ledger) (reactivate userId) 0 := by
  refine only_bind (keyed_query trivial) fun found => ?_
  cases found with
  | none => exact only_throw _
  | some sub =>
      simp only
      split
      · exact only_throw _
      split
      · exact only_throw _
      · exact keyed_query trivial

end SubscriptionsService

end Keyed

end PaymentBilling

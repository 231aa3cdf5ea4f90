import PaymentBilling.Spec.Writes
import PaymentBilling.Transact.Blame

/-!
# Spec.Blame

Violated unique constraints come from the database.

No service throws an error with the code `P2002` on its own account, so a call
that ends with one passes on the answer of one of its statements.
-/

namespace PaymentBilling

open Transact

/-- The error of a violated unique constraint. -/
def IsDuplicate (e : Err) : Prop := e.code = some "P2002"

instance (e : Err) : Decidable (IsDuplicate e) := inferInstanceAs (Decidable (_ = _))

theorem isDuplicate_iff {e : Err} : IsDuplicate e ↔ e = .rejected .unique := by
  constructor
  · intro h
    unfold IsDuplicate Err.code at h
    split at h <;> simp_all
  · rintro rfl
    rfl

/-- The call passes on violated unique constraints. -/
abbrev PassesOn {α : Type} (p : Action α) : Prop := Passes IsDuplicate p

namespace CreditsService

theorem shortCircuit_passes (userId : Js) (existing : CreditTransaction) :
    PassesOn (shortCircuit userId existing) :=
  passes_bind (passes_exec _) fun _ => passes_pure _

theorem grantCredits_passes (userId amount : Js) (type : CreditTransactionType)
    (description key : String) (metadata : Metadata) :
    PassesOn (grantCredits userId amount type description key metadata) := by
  unfold grantCredits
  split
  · exact passes_throw nofun
  · refine passes_transaction (passes_bind (passes_exec _) fun found => ?_)
    cases found with
    | some existing => exact shortCircuit_passes userId existing
    | none =>
        refine passes_bind (passes_exec _) fun _ => ?_
        exact passes_bind (passes_exec _) fun _ => passes_pure _

theorem deductLocked_passes (userId amount : Js) (description : String) (key : Option String)
    (metadata : Metadata) : PassesOn (deductLocked userId amount description key metadata) := by
  refine passes_bind (passes_exec _) fun rows => ?_
  cases rows with
  | nil => exact passes_throw nofun
  | cons locked rest =>
      simp only
      split
      · exact passes_throw nofun
      · refine passes_bind (passes_exec _) fun _ => ?_
        exact passes_bind (passes_exec _) fun _ => passes_pure _

theorem deductCredits_passes (userId amount : Js) (description : String) (key : Option String)
    (metadata : Metadata) : PassesOn (deductCredits userId amount description key metadata) := by
  unfold deductCredits
  split
  · exact passes_throw nofun
  · refine passes_transaction ?_
    split
    · exact deductLocked_passes _ _ _ _ _
    · refine passes_bind (passes_exec _) fun found => ?_
      cases found with
      | some existing => exact shortCircuit_passes userId existing
      | none => exact deductLocked_passes _ _ _ _ _

end CreditsService

namespace LedgerService

theorem totals_error {d c : Js} {entries : List LedgerEntryInput} {e : Err}
    (h : totals d c entries = .error e) : ¬IsDuplicate e := by
  induction entries generalizing d c with
  | nil => cases h
  | cons entry entries ih =>
      unfold totals at h
      split at h
      · cases h
        intro hdup
        cases hdup
      · split at h
        · exact ih h
        · exact ih h

theorem validate_error {entries : List LedgerEntryInput} {e : Err} (h : validate entries = .error e) :
    ¬IsDuplicate e := by
  unfold validate at h
  split at h
  · cases h
    nofun
  · split at h
    · next ht =>
      cases h
      exact totals_error ht
    · split at h
      · cases h
      · cases h
        nofun

theorem recordEntries_passes (id : String) (entries : List LedgerEntryInput) :
    PassesOn (recordEntries id entries) := by
  induction entries with
  | nil => exact passes_pure _
  | cons entry entries ih =>
      refine passes_bind (passes_exec _) fun found => ?_
      cases found with
      | none => exact passes_throw nofun
      | some account =>
          refine passes_bind (passes_exec _) fun _ => ?_
          exact passes_bind (passes_exec _) fun _ => ih

theorem executeRecord_passes (userId : Js) (description : String) (entries : List LedgerEntryInput)
    (status : LedgerTransactionStatus) (metadata : Metadata) (key : Option String) :
    PassesOn (executeRecord userId description entries status metadata key) := by
  refine passes_bind (passes_exec _) fun txn => ?_
  refine passes_bind (recordEntries_passes _ _) fun _ => ?_
  refine passes_bind (passes_exec _) fun found => ?_
  cases found with
  | some response => exact passes_pure _
  | none => exact passes_throw nofun

theorem recordTransaction_passes (userId : Js) (description : String)
    (entries : List LedgerEntryInput) (status : LedgerTransactionStatus) (metadata : Metadata)
    (externalTx : Bool) (key : Option String) :
    PassesOn (recordTransaction userId description entries status metadata externalTx key) := by
  have hpost : ∀ key,
      PassesOn (validateAndRecord userId description entries status metadata externalTx key) := by
    intro key
    unfold validateAndRecord
    split
    · next h => exact passes_throw (validate_error h)
    · split
      · exact executeRecord_passes _ _ _ _ _ _
      · exact passes_transaction (executeRecord_passes _ _ _ _ _ _)
  unfold recordTransaction
  split
  · exact hpost none
  · refine passes_bind (passes_exec _) fun found => ?_
    cases found with
    | some response => exact passes_pure _
    | none => exact hpost _

end LedgerService

namespace SubscriptionsService

theorem createOrUpdateFromGateway_passes (params : GatewayActivation) :
    PassesOn (createOrUpdateFromGateway params) := by
  refine passes_bind (passes_exec _) fun _ => ?_
  exact passes_bind (passes_exec _) fun _ => passes_pure _

theorem cancelImmediately_passes (userId : Js) : PassesOn (cancelImmediately userId) := by
  refine passes_bind (passes_exec _) fun found => ?_
  cases found with
  | none => exact passes_pure _
  | some _ => exact passes_bind (passes_exec _) fun _ => passes_pure _

end SubscriptionsService

namespace DisputesService

theorem createDispute_passes (params : DisputeCreate) : PassesOn (createDispute params) := by
  refine passes_bind (passes_exec _) fun found => ?_
  cases found with
  | none => exact passes_exec _
  | some _ => exact passes_pure _

end DisputesService

namespace AuthorizeNetWebhookController

theorem recordCharge_passes (data : AuthorizeNetData) (plan : Js) :
    PassesOn (recordCharge data plan) := by
  unfold recordCharge
  split
  · exact passes_bind (passes_exec _) fun _ => passes_pure _
  · exact passes_pure _

theorem subscriptionActivated_passes (data : AuthorizeNetData) :
    PassesOn (subscriptionActivated data) := by
  unfold subscriptionActivated
  split
  · next h =>
    refine passes_throw ?_
    unfold mapPlanSlug at h
    split at h
    · cases h
    · split at h
      · simp only at h
        split at h
        · cases h
        · split at h <;> cases h
      · cases h
        nofun
  · refine passes_bind (SubscriptionsService.createOrUpdateFromGateway_passes _) fun _ => ?_
    exact recordCharge_passes _ _

theorem chargeApproved_passes (data : AuthorizeNetData) : PassesOn (chargeApproved data) := by
  unfold chargeApproved
  split
  · split
    · exact passes_pure _
    · exact passes_bind (CreditsService.grantCredits_passes _ _ _ _ _ _) fun _ => recordCharge_passes _ _
  · exact recordCharge_passes _ _

theorem chargeRefunded_passes (data : AuthorizeNetData) : PassesOn (chargeRefunded data) := by
  unfold chargeRefunded
  split
  · split
    · exact passes_pure _
    · refine passes_tryCatch (passes_bind (CreditsService.deductCredits_passes _ _ _ _ _) fun _ => ?_)
        fun _ => passes_pure _
      exact passes_pure _
  · exact passes_pure _

theorem reverseCharge_passes (data : AuthorizeNetData) (dispute : Dispute) :
    PassesOn (reverseCharge data dispute) := by
  have haccount : ∀ userId type,
      PassesOn (do let account ← query (.ledgerAccountUpsert userId type); return account.id) :=
    fun _ _ => passes_bind (passes_exec _) fun _ => passes_pure _
  refine passes_bind (haccount _ _) fun _ => passes_bind (haccount _ _) fun _ => ?_
  refine passes_bind (LedgerService.recordTransaction_passes _ _ _ _ _ _ _) fun _ => ?_
  exact passes_bind (passes_exec _) fun _ => passes_pure _

theorem chargebackReceived_passes (data : AuthorizeNetData) : PassesOn (chargebackReceived data) := by
  refine passes_bind (DisputesService.createDispute_passes _) fun dispute => ?_
  split
  · exact passes_pure _
  · refine passes_bind (reverseCharge_passes _ _) fun _ => ?_
    refine passes_tryCatch (passes_bind (CreditsService.deductCredits_passes _ _ _ _ _) fun _ => ?_)
      fun _ => passes_pure _
    exact passes_pure _

/-- The side effects of an event. -/
theorem applyEvent_passes (type : Js) (data : Option AuthorizeNetData) :
    PassesOn (applyEvent type data) := by
  have hcancel : ∀ userId, PassesOn (do
      let _ ← SubscriptionsService.cancelImmediately userId
      return ()) := fun userId =>
    passes_bind (SubscriptionsService.cancelImmediately_passes _) fun _ => passes_pure _
  unfold applyEvent
  split
  · exact passes_pure _
  · split
    · exact passes_throw nofun
    · split
      · exact subscriptionActivated_passes _
      · exact subscriptionActivated_passes _
      · exact hcancel _
      · exact chargeApproved_passes _
      · exact chargeRefunded_passes _
      · exact hcancel _
      · exact chargebackReceived_passes _
      · exact passes_pure _

end AuthorizeNetWebhookController

namespace SolanaConfirmationController

/-- The side effects of a settled transaction. -/
theorem applyConfirmation_passes (data : SolanaData) : PassesOn (applyConfirmation data) := by
  have hpayment : PassesOn (creditPayment data) := by
    refine passes_bind (CreditsService.grantCredits_passes _ _ _ _ _ _) fun _ => ?_
    exact passes_bind (passes_exec _) fun _ => passes_pure _
  rw [applyConfirmation_eq]
  split
  · exact passes_bind (SubscriptionsService.createOrUpdateFromGateway_passes _) fun _ => hpayment
  · exact hpayment

end SolanaConfirmationController

end PaymentBilling

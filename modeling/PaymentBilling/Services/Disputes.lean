import PaymentBilling.Services.BillingConfig
import PaymentBilling.Services.Credits
import PaymentBilling.Services.Ledger

/-!
# Services.Disputes

`DisputesService`: creation, evidence and outcome of a dispute.

The status is checked outside the transaction that sets it.  A dispute that is
won reverses the chargeback in the ledger and grants the credits back, the
latter in a transaction of its own; one that is lost costs a fee.
-/

namespace PaymentBilling

/-- The outcomes of a dispute. -/
inductive DisputeOutcome
  | WON | LOST
  deriving DecidableEq

/-- The status that an outcome sets. -/
def DisputeOutcome.status : DisputeOutcome → DisputeStatus
  | WON => .WON
  | LOST => .LOST

namespace DisputesService

/-- Valid dispute status transitions. -/
def DISPUTE_TRANSITIONS : DisputeStatus → Option (List DisputeStatus)
  | .OPEN => some [.WON, .LOST, .EVIDENCE_SUBMITTED]
  | .EVIDENCE_SUBMITTED => some [.WON, .LOST]
  | _ => none

/-- Refuse a transition that is not listed. -/
def assertTransition (current target : DisputeStatus) : Except Err Unit :=
  if ((DISPUTE_TRANSITIONS current).getD []).contains target then .ok ()
  else .error (.badRequest
    ("Invalid dispute transition: " ++ current.label ++ " → " ++ target.label))

/-- Create a dispute, unless the gateway's dispute is known. -/
def createDispute (params : DisputeCreate) : Action Dispute := do
  match ← query (.disputeFindByGateway params.gatewayDisputeId) with
  | some existing => return existing
  | none => query (.disputeCreate params)

/-- Add evidence; an open dispute then counts as answered. -/
def attachEvidence (params : DisputeEvidenceCreate) : Action DisputeEvidence := do
  match ← query (.disputeFindUnique params.disputeId) with
  | none => throw (.notFound "Dispute not found")
  | some dispute =>
    let evidence ← query (.disputeEvidenceCreate params)
    if dispute.status = .OPEN then
      let _ ← query (.disputeUpdate params.disputeId .evidenceSubmitted)
      return evidence
    else return evidence

/-- The entries that restore the revenue of a dispute. -/
def wonEntries (userAssetAccountId revenueAccountId : String) (amount : Int) :
    List LedgerEntryInput :=
  [⟨userAssetAccountId, .DEBIT, .int amount⟩, ⟨revenueAccountId, .CREDIT, .int amount⟩]

/-- The entries that record the fee of a lost dispute. -/
def lostEntries (expenseAccountId userAssetAccountId : String) (chargebackFeeCents : Int) :
    List LedgerEntryInput :=
  [⟨expenseAccountId, .DEBIT, .int chargebackFeeCents⟩,
    ⟨userAssetAccountId, .CREDIT, .int chargebackFeeCents⟩]

/-- Give the credits of a won dispute back; a failure is only logged. -/
def restoreCredits (dispute : Dispute) : Action Unit :=
  tryCatch
    (do
      let _ ← CreditsService.addCredits (.str dispute.userId) (.int dispute.amount) .REFUND
        ("Credits restored: dispute " ++ dispute.id ++ " won") ("dispute_won_" ++ dispute.id)
        [("disputeId", .str dispute.id), ("source", .str "dispute_won")]
      return ())
    fun _ => return ()

/-- The transaction of a won dispute. -/
def handleWon (dispute : Dispute) : Action Dispute :=
  transaction do
    let userAssetAccountId ← LedgerService.getOrCreateAssetAccount (.str dispute.userId)
    let revenueAccountId ← LedgerService.getOrCreateSystemAccount .REVENUE
    let _ ← LedgerService.recordTransaction (.str dispute.userId)
      ("Dispute WON: reversal-of-reversal for dispute " ++ dispute.id)
      (wonEntries userAssetAccountId revenueAccountId dispute.amount) .COMPLETED
      [("disputeId", .str dispute.id), ("outcome", .str "WON"),
        ("originalReversalTxnId", (dispute.ledgerReversalTxnId.map .str).getD .null),
        ("type", .str "dispute_won_reversal")]
      true (some ("dispute_won_" ++ dispute.id ++ "_ledger"))
    restoreCredits dispute
    query (.disputeUpdate dispute.id (.resolve .WON))

/-- The transaction of a lost dispute. -/
def handleLost (dispute : Dispute) : Action Dispute := do
  let chargebackFeeCents ← BillingConfigService.getInt "chargeback_fee_cents" 1500
  transaction do
    let expenseAccountId ← LedgerService.getOrCreateSystemAccount .EXPENSE
    let userAssetAccountId ← LedgerService.getOrCreateAssetAccount (.str dispute.userId)
    let _ ← LedgerService.recordTransaction (.str dispute.userId)
      ("Chargeback fee for lost dispute " ++ dispute.id)
      (lostEntries expenseAccountId userAssetAccountId chargebackFeeCents) .COMPLETED
      [("disputeId", .str dispute.id), ("outcome", .str "LOST"), ("feeType", .str "chargeback"),
        ("feeCents", .int chargebackFeeCents), ("type", .str "chargeback_fee")]
      true (some ("dispute_lost_" ++ dispute.id ++ "_fee_ledger"))
    query (.disputeUpdate dispute.id (.resolve .LOST))

/-- Resolve a dispute. -/
def setOutcome (disputeId : String) (outcome : DisputeOutcome) : Action Dispute := do
  match ← query (.disputeFindUnique disputeId) with
  | none => throw (.notFound "Dispute not found")
  | some dispute =>
    match assertTransition dispute.status outcome.status with
    | .error e => throw e
    | .ok () =>
      match outcome with
      | .WON => handleWon dispute
      | .LOST => handleLost dispute

end DisputesService

end PaymentBilling

import PaymentBilling.Services.Credits
import PaymentBilling.Services.Ledger

/-!
# Services.Refunds

`RefundsService`: a refund request, its review and its processing.

Each operation reads the status in one statement and writes it in a later one.
Processing moves the money in between: credits through `refundCredits`, a
payment through the gateway first and then in one database transaction.
-/

namespace PaymentBilling

/-- What a user asks for. -/
structure CreateRefundRequestDto where
  type : RefundType
  amount : Js
  reason : String
  gatewayType : Option PaymentGateway := none
  originalGatewayTransactionId : Option String := none

namespace RefundsService

/-- The charge to refund: the given one, or the user's latest. -/
def resolveTxnId (userId : String) (data : CreateRefundRequestDto) : Action (Option String) :=
  match data.type, data.gatewayType, data.originalGatewayTransactionId.filter (· ≠ "") with
  | .PAYMENT, some gatewayType, none => do
    match ← query (.chargeRecordFindLatest userId gatewayType) with
    | some latest => return some latest.gatewayTransactionId
    | none => return data.originalGatewayTransactionId
  | _, _, _ => return data.originalGatewayTransactionId

/-- Ask for a refund. -/
def createRefundRequest (userId : String) (data : CreateRefundRequestDto) : Action RefundRequest :=
  if data.amount.le (.int 0) then throw (.badRequest "Amount must be positive")
  else if data.type = .PAYMENT ∧ data.gatewayType = none then
    throw (.badRequest "gatewayType is required for PAYMENT refunds")
  else do
    let subscription ← query (.subscriptionFindUnique (.str userId))
    if data.type = .PAYMENT ∧ subscription = none then
      throw (.badRequest "No payment history for this user")
    else
      let resolvedTxnId ← resolveTxnId userId data
      query (.refundCreate
        { userId, type := data.type, amount := data.amount, reason := data.reason
          gatewayType := data.gatewayType, originalGatewayTransactionId := resolvedTxnId })

/-- White space only. -/
def isBlank (notes : String) : Bool := notes.toList.all isJsSpace

/-- Read a request that has to be in the status `PENDING`. -/
def findPending (id verb : String) : Action RefundRequest := do
  match ← query (.refundFindUnique id) with
  | none => throw (.notFound "Refund request not found")
  | some refund =>
    if refund.status ≠ .PENDING then
      throw (.badRequest ("Cannot " ++ verb ++ " a refund in status " ++ refund.status.label))
    else return refund

/-- Approve a pending request. -/
def approveRefund (id adminId : String) (notes : Option String) : Action RefundRequest := do
  let _ ← findPending id "approve"
  query (.refundUpdate id (.review .APPROVED adminId notes))

/-- Deny a pending request; notes are required. -/
def denyRefund (id adminId notes : String) : Action RefundRequest :=
  if isBlank notes then throw (.badRequest "Review notes are required when denying a refund")
  else do
    let _ ← findPending id "deny"
    query (.refundUpdate id (.review .DENIED adminId (some notes)))

/-- Grant the credits of a request back. -/
def processCreditRefund (refund : RefundRequest) : Action Unit := do
  let _ ← CreditsService.refundCredits (.str refund.userId) (.int refund.amount)
    ("Refund for request " ++ refund.id) ("refund_" ++ refund.id)
    [("refundRequestId", .str refund.id), ("source", .str "admin_approved_refund")]
  return ()

/-- The entries that reverse a payment. -/
def refundEntries (userAssetAccountId revenueAccountId : String) (refundedAmount : Js) :
    List LedgerEntryInput :=
  [⟨revenueAccountId, .DEBIT, refundedAmount⟩, ⟨userAssetAccountId, .CREDIT, refundedAmount⟩]

/-- Take back the credits of a refunded payment; a failure is only logged. -/
def deductRefunded (refund : RefundRequest) : Action Unit :=
  tryCatch
    (do
      let _ ← CreditsService.deductCredits (.str refund.userId) (.int refund.amount)
        ("Credit reversal for payment refund " ++ refund.id) (some ("refund_" ++ refund.id))
        [("refundRequestId", .str refund.id), ("source", .str "payment_refund")]
      return ())
    fun _ => return ()

/-- Write the ledger transaction of a payment refund, and the gateway's
identifier of it. -/
def recordRows (refund : RefundRequest) (result : RefundResult) : Action Unit := do
  let userAssetAccountId ← LedgerService.getOrCreateAssetAccount (.str refund.userId)
  let revenueAccountId ← LedgerService.getOrCreateSystemAccount .REVENUE
  let _ ← LedgerService.recordTransaction (.str refund.userId)
    ("Payment refund for request " ++ refund.id)
    (refundEntries userAssetAccountId revenueAccountId result.refundedAmount) .COMPLETED
    [("refundRequestId", .str refund.id), ("gatewayRefundId", .str result.gatewayRefundId),
      ("type", .str "payment_refund")]
    true (some ("refund_" ++ refund.id ++ "_ledger"))
  let _ ← query (.refundUpdate refund.id (.paymentRefundId result.gatewayRefundId))
  return ()

/-- The database transaction of a payment refund. -/
def recordRefund (refund : RefundRequest) (result : RefundResult) : Action Unit :=
  transaction do
    recordRows refund result
    deductRefunded refund

/-- Call the gateway; its error is the error of the call. -/
def refundCharge (gatewayType : PaymentGateway) (params : RefundParams) : Action RefundResult := do
  match ← query (.refundCharge gatewayType params) with
  | .ok result => return result
  | .error message => throw (.gateway message)

/-- Refund a payment: at the gateway first, then in the database. -/
def processPaymentRefund (refund : RefundRequest) : Action Unit :=
  if (refund.paymentRefundId.filter (· ≠ "")).isSome then return ()
  else
    match refund.gatewayType with
    | none => throw (.badRequest "gatewayType is required for payment refunds")
    | some gatewayType =>
      match refund.originalGatewayTransactionId.filter (· ≠ "") with
      | none =>
        throw (.badRequest "originalGatewayTransactionId is required for payment refunds")
      | some gatewayTransactionId => do
        let result ← refundCharge gatewayType
          { gatewayTransactionId, amount := refund.amount
            idempotencyKey := "refund_" ++ refund.id }
        recordRefund refund result

/-- The part of `processRefund` whose errors are recorded on the request. -/
def dispatch (refund : RefundRequest) : Action Unit :=
  match refund.type with
  | .CREDITS => processCreditRefund refund
  | .PAYMENT => processPaymentRefund refund

/-- Process an approved request. -/
def processRefund (id : String) : Action RefundRequest := do
  match ← query (.refundFindUnique id) with
  | none => throw (.notFound "Refund request not found")
  | some refund =>
    if refund.status ≠ .APPROVED then
      throw (.badRequest "Only approved refund requests can be processed")
    else
      tryCatch (dispatch refund) fun error => do
        let _ ← query (.refundUpdate id (.failed error.message))
        throw error
      query (.refundUpdate id .processed)

end RefundsService

end PaymentBilling

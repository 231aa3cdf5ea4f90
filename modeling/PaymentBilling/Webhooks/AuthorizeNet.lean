import PaymentBilling.Services.Disputes
import PaymentBilling.Services.Subscriptions
import PaymentBilling.Webhooks.Hmac

/-!
# Webhooks.AuthorizeNet

`AuthorizeNetWebhookController`: the card gateway's events.

An event is verified, looked up among the processed ones, and then recorded and
applied in one transaction; the unique identifier of the record catches a
replay that raced past the lookup.  The services that an event calls run in
that transaction, except for credits: their transactions are always their own.
-/

namespace PaymentBilling

/-- The types of events that are handled. -/
inductive EventType
  | subscriptionCreated
  | subscriptionRenewed
  | subscriptionCanceled
  | chargeApproved
  | chargeRefunded
  | chargeFailed
  | chargebackReceived
  | unhandled
  deriving DecidableEq

/-- The type that a value names. -/
def EventType.ofJs : Js → EventType
  | .str s =>
    if s = "subscription.created" then subscriptionCreated
    else if s = "subscription.renewed" then subscriptionRenewed
    else if s = "subscription.canceled" then subscriptionCanceled
    else if s = "charge.approved" then chargeApproved
    else if s = "charge.refunded" then chargeRefunded
    else if s = "charge.failed" then chargeFailed
    else if s = "chargeback.received" then chargebackReceived
    else unhandled
  | _ => unhandled

/-- The fields of an event's data that are read; a field that is absent is
`undefined`. -/
structure AuthorizeNetData where
  plan : Js := .undefined
  userId : Js := .undefined
  arbSubscriptionId : Js := .undefined
  customerId : Js := .undefined
  profileId : Js := .undefined
  currentPeriodStart : Js := .undefined
  currentPeriodEnd : Js := .undefined
  transactionId : Js := .undefined
  amountCents : Js := .undefined
  amount : Js := .undefined
  contextType : Js := .undefined
  contextRef : Js := .undefined
  reason : Js := .undefined

/-- The body of a delivery; without `data`, reading a field of it throws. -/
structure AuthorizeNetEvent where
  eventId : Js
  type : Js
  data : Option AuthorizeNetData

/-- A delivery: the bytes that are signed, the signature, and the parsed body. -/
structure AuthorizeNetRequest where
  rawBody : List UInt8
  signature : Option String
  body : AuthorizeNetEvent

/-- What the signature check depends on. -/
structure AuthorizeNetConfig where
  hmacSha256 : HmacSha256
  secret : String

/-- The response to a delivery. -/
structure WebhookResponse where
  received : Bool := true
  skipped : Bool := false
  deriving DecidableEq

namespace AuthorizeNetWebhookController

/-- The upper case of a character, as far as a plan name can come out of it. -/
def upperCase (c : Char) : List Char :=
  if c = 'ſ' then ['S']
  else if c = 'ı' then ['I']
  else if c = 'ﬅ' ∨ c = 'ﬆ' then ['S', 'T']
  else [c.toUpper]

/-- The plan that a slug names; anything unknown is the basic one. -/
def mapPlanSlug (slug : Js) : Except Err SubscriptionPlan :=
  if !slug.truthy then .ok .BASIC
  else
    match slug with
    | .str s =>
      let upper := s.toList.flatMap upperCase
      if upper = "STANDARD".toList then .ok .STANDARD
      else if upper = "PREMIUM".toList then .ok .PREMIUM
      else .ok .BASIC
    | _ => .error (.typeError "slug.toUpperCase is not a function")

/-- `String(contextRef).match(/^(\d+)_credits$/)`, as the number it captures. -/
def creditAmount (contextRef : Js) : Option Int :=
  match readDigits 0 0 contextRef.text.toList with
  | (_, 0, _) => none
  | (n, _, rest) => if rest = "_credits".toList then some n else none

/-- A one-off purchase of credits. -/
def isCreditPurchase (data : AuthorizeNetData) : Bool :=
  data.contextType = .str "credit_purchase" && data.contextRef.truthy

/-- A date, if the field is there. -/
def dateField (x : Js) : Option Js := if x.truthy then some x else none

/-- Record a charge for later refunds, if it says whose it is. -/
def recordCharge (data : AuthorizeNetData) (plan : Js) : Action Unit :=
  if data.transactionId.truthy && data.userId.truthy then do
    let _ ← query (.chargeRecordUpsert
      { userId := data.userId, gatewayType := .AUTHORIZE_NET
        gatewayTransactionId := data.transactionId
        amountCents := (data.amountCents.coalesce data.amount).coalesce (.int 0), plan })
    return ()
  else return ()

/-- `subscription.created` and `subscription.renewed`. -/
def subscriptionActivated (data : AuthorizeNetData) : Action Unit :=
  match mapPlanSlug data.plan with
  | .error e => throw e
  | .ok plan => do
    let _ ← SubscriptionsService.createOrUpdateFromGateway
      { userId := data.userId, plan := .str plan.label, gatewayType := .AUTHORIZE_NET
        gatewaySubscriptionId := data.arbSubscriptionId, gatewayCustomerId := data.customerId
        gatewayData :=
          [("profileId", data.profileId), ("arbSubscriptionId", data.arbSubscriptionId)]
        currentPeriodStart := dateField data.currentPeriodStart
        currentPeriodEnd := dateField data.currentPeriodEnd }
    recordCharge data (.str plan.label)

/-- `charge.approved`. -/
def chargeApproved (data : AuthorizeNetData) : Action Unit :=
  if isCreditPurchase data then
    match creditAmount data.contextRef with
    | none => return ()
    | some amount => do
      let _ ← CreditsService.addCredits data.userId (.int amount) .PURCHASE
        "Credit purchase via Authorize.net" ("authorize_net_charge_" ++ data.transactionId.text)
        [("authorizeNetTransactionId", data.transactionId)]
      recordCharge data .undefined
  else recordCharge data .undefined

/-- `charge.refunded`. -/
def chargeRefunded (data : AuthorizeNetData) : Action Unit :=
  if isCreditPurchase data then
    match creditAmount data.contextRef with
    | none => return ()
    | some amount =>
      tryCatch
        (do
          let _ ← CreditsService.deductCredits data.userId (.int amount)
            ("Reversal for refunded charge " ++ data.transactionId.text)
            (some ("authorize_net_refund_" ++ data.transactionId.text))
          return ())
        fun _ => return ()
  else return ()

/-- The entries that take back the revenue of a disputed charge. -/
def chargebackEntries (userAssetAccountId revenueAccountId : String) (amount : Js) :
    List LedgerEntryInput :=
  [⟨revenueAccountId, .DEBIT, amount⟩, ⟨userAssetAccountId, .CREDIT, amount⟩]

/-- Take back the credits of a disputed charge; a failure is only logged. -/
def deductDisputed (data : AuthorizeNetData) (dispute : Dispute) : Action Unit :=
  tryCatch
    (do
      let _ ← CreditsService.deductCredits data.userId data.amount
        ("Credit reversal for chargeback on transaction " ++ data.transactionId.text)
        (some ("chargeback_" ++ data.transactionId.text))
        [("disputeId", .str dispute.id), ("source", .str "chargeback")]
      return ())
    fun _ => return ()

/-- Write the ledger reversal of a new dispute and point the dispute to it. -/
def reverseCharge (data : AuthorizeNetData) (dispute : Dispute) : Action Unit := do
  let userAssetAccountId ← LedgerService.getOrCreateAssetAccount data.userId
  let revenueAccountId ← LedgerService.getOrCreateSystemAccount .REVENUE
  let reversalTxn ← LedgerService.recordTransaction data.userId
    ("Chargeback reversal for transaction " ++ data.transactionId.text)
    (chargebackEntries userAssetAccountId revenueAccountId data.amount) .COMPLETED
    [("disputeId", .str dispute.id), ("chargebackEventId", .str "chargeback.received"),
      ("originalTransactionId", data.transactionId), ("type", .str "chargeback_reversal")]
    true (some ("chargeback_" ++ data.transactionId.text ++ "_reversal_ledger"))
  let _ ← query (.disputeUpdate dispute.id (.ledgerReversalTxnId reversalTxn.transaction.id))
  return ()

/-- `chargeback.received`. -/
def chargebackReceived (data : AuthorizeNetData) : Action Unit := do
  let dispute ← DisputesService.createDispute
    { userId := data.userId, gateway := .AUTHORIZE_NET
      gatewayDisputeId := "an_dispute_" ++ data.transactionId.text
      originalTransactionId := data.transactionId, amount := data.amount
      reason := data.reason.or (.str "Chargeback received") }
  if (dispute.ledgerReversalTxnId.filter (· ≠ "")).isSome then return ()
  else
    reverseCharge data dispute
    deductDisputed data dispute

/-- The side effects of an event. -/
def applyEvent (type : Js) (data : Option AuthorizeNetData) : Action Unit :=
  match EventType.ofJs type with
  | .unhandled => return ()
  | handled =>
    match data with
    | none => throw (.typeError "Cannot read properties of undefined")
    | some data =>
      match handled with
      | .subscriptionCreated => subscriptionActivated data
      | .subscriptionRenewed => subscriptionActivated data
      | .subscriptionCanceled => do
        let _ ← SubscriptionsService.cancelImmediately data.userId
        return ()
      | .chargeApproved => chargeApproved data
      | .chargeRefunded => chargeRefunded data
      | .chargeFailed => do
        let _ ← SubscriptionsService.cancelImmediately data.userId
        return ()
      | .chargebackReceived => chargebackReceived data
      | .unhandled => return ()

/-- The transaction of an event: its record and its side effects. -/
def recordAndApply (event : AuthorizeNetEvent) : Action Unit :=
  transaction do
    let _ ← query (.processedWebhookCreate event.eventId "authorize_net" event.type)
    applyEvent event.type event.data

/-- Handle a delivery. -/
def handleWebhook (config : AuthorizeNetConfig) (req : AuthorizeNetRequest) :
    Action WebhookResponse :=
  if !verifyHmac config.hmacSha256 req.rawBody req.signature config.secret then
    throw (.badRequest "Invalid webhook signature")
  else if !req.body.eventId.truthy || !req.body.type.truthy then
    throw (.badRequest "Invalid webhook payload")
  else do
    match ← query (.processedWebhookFindUnique req.body.eventId) with
    | some _ => return { skipped := true }
    | none =>
      tryCatch
        (do
          recordAndApply req.body
          return {})
        fun err => if err.code = some "P2002" then return { skipped := true } else throw err

end AuthorizeNetWebhookController

end PaymentBilling

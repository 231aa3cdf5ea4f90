import PaymentBilling.Services.Credits
import PaymentBilling.Services.Subscriptions

/-!
# Webhooks.Solana

`SolanaConfirmationController`: confirmations of transactions on the chain.

A transaction is settled once, when it is deep enough: its hash is recorded and
its effects are applied in one transaction, except for the grant of credits,
which runs in its own.
-/

namespace PaymentBilling

/-- The data of a confirmation. -/
structure SolanaData where
  txHash : Js := .undefined
  userId : Js := .undefined
  amount : Js := .undefined
  plan : Js := .undefined
  confirmations : Js := .undefined
  reference : Js := .undefined

/-- The body of a confirmation. -/
structure SolanaEvent where
  eventId : Js
  data : Option SolanaData

/-- The response to a confirmation. -/
structure ConfirmationResponse where
  received : Bool := true
  settled : Bool
  skipped : Bool := false
  confirmations : Option Js := none
  deriving DecidableEq

namespace SolanaConfirmationController

/-- The required depth, from the setting `SOLANA_REQUIRED_CONFIRMATIONS`. -/
def requiredConfirmations (setting : Option String) : Js :=
  match parseInt ((setting.filter (· ≠ "")).getD "3") with
  | some n => .int n
  | none => .num .nan

/-- `txHash.slice(0, 10)`, in a text for people. -/
def shortHash (txHash : String) : String := String.ofList (txHash.toList.take 10)

/-- The side effects of a settled transaction. -/
def applyConfirmation (data : SolanaData) : Action Unit := do
  if data.plan.truthy then
    let _ ← SubscriptionsService.createOrUpdateFromGateway
      { userId := data.userId, plan := data.plan, gatewayType := .SOLANA
        gatewaySubscriptionId := data.reference.or data.txHash, gatewayCustomerId := data.userId
        gatewayData := [("txHash", data.txHash), ("chain", .str "SOLANA")] }
  let _ ← CreditsService.addCredits data.userId data.amount .PURCHASE
    ("Solana on-chain payment " ++ shortHash data.txHash.text ++ "...")
    ("solana_charge_" ++ data.txHash.text) [("solanaTxHash", data.txHash)]
  let _ ← query (.chargeRecordUpsert
    { userId := data.userId, gatewayType := .SOLANA, gatewayTransactionId := data.txHash
      amountCents := data.amount, plan := data.plan })
  return ()

/-- The transaction of a confirmation: its record and its side effects. -/
def recordAndApply (data : SolanaData) : Action Unit :=
  transaction do
    let _ ← query (.processedWebhookCreate data.txHash "solana" (.str "confirmation"))
    applyConfirmation data

/-- Acknowledge a confirmation that is not deep enough; the log line slices
the hash. -/
def waiting (data : SolanaData) : Action ConfirmationResponse :=
  match data.txHash with
  | .str _ => return { settled := false, confirmations := some data.confirmations }
  | .array _ => return { settled := false, confirmations := some data.confirmations }
  | _ => throw (.typeError "event.data.txHash.slice is not a function")

/-- Settle a transaction that is deep enough. -/
def settle (data : SolanaData) : Action ConfirmationResponse := do
  match ← query (.processedWebhookFindUnique data.txHash) with
  | some _ => return { settled := true, skipped := true }
  | none =>
    tryCatch
      (do
        recordAndApply data
        return { settled := true })
      fun err =>
        if err.code = some "P2002" then return { settled := true, skipped := true } else throw err

/-- Handle a confirmation. -/
def handleConfirmation (setting : Option String) (event : SolanaEvent) :
    Action ConfirmationResponse :=
  match event.data with
  | none => throw (.badRequest "Invalid confirmation payload")
  | some data =>
    if !event.eventId.truthy || !data.txHash.truthy then
      throw (.badRequest "Invalid confirmation payload")
    else if data.confirmations.lt (requiredConfirmations setting) then waiting data
    else settle data

end SolanaConfirmationController

end PaymentBilling

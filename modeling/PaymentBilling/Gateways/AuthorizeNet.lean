import PaymentBilling.Store.Statement

/-!
# Gateways.AuthorizeNet

`AuthorizeNetGateway`: the mock of the card gateway, with its state in memory.

Random texts come from outside: `random n` is the `n`-th slice of a UUID that
the gateway draws, and the gateway's state counts how many it has drawn.
-/

namespace PaymentBilling

/-- What a gateway says of a new subscription. -/
structure CreatedSubscription where
  gatewaySubscriptionId : String
  gatewayCustomerId : String
  gatewayData : Metadata

/-- The answer of a gateway to a call. -/
inductive GatewayAnswer
  | created (subscription : CreatedSubscription)
  | done
  | refunded (result : RefundResult)

structure AuthorizeNetCustomer where
  id : String
  userId : String

structure AuthorizeNetSubscription where
  id : String
  customerId : String
  plan : SubscriptionPlan
  status : String

/-- The statuses of a charge of the card gateway. -/
inductive AuthorizeNetChargeStatus
  | ok | refunded
  deriving DecidableEq

structure AuthorizeNetCharge where
  id : String
  subscriptionId : String
  amount : JsNum
  status : AuthorizeNetChargeStatus

/-- The state of the card gateway. -/
structure AuthorizeNetGateway where
  customers : String → Option AuthorizeNetCustomer := fun _ => none
  subscriptions : String → Option AuthorizeNetSubscription := fun _ => none
  charges : String → Option AuthorizeNetCharge := fun _ => none
  refundLog : String → Option RefundResult := fun _ => none
  drawn : Nat := 0

namespace AuthorizeNetGateway

/-- Create a subscription; it draws three random texts. -/
def createSubscription (random : Nat → String) (userId : String) (plan : SubscriptionPlan)
    (g : AuthorizeNetGateway) : CreatedSubscription × AuthorizeNetGateway :=
  let customerId := "an_cust_" ++ random g.drawn
  let arbId := "arb_" ++ random (g.drawn + 1)
  let profileId := "an_profile_" ++ random (g.drawn + 2)
  (⟨arbId, customerId, [("profileId", .str profileId), ("arbSubscriptionId", .str arbId)]⟩,
    { g with
      customers := Function.update g.customers customerId (some ⟨customerId, userId⟩)
      subscriptions :=
        Function.update g.subscriptions arbId (some ⟨arbId, customerId, plan, "active"⟩)
      drawn := g.drawn + 3 })

/-- Cancel a subscription, if it is known. -/
def cancelSubscription (gatewaySubscriptionId : String) (g : AuthorizeNetGateway) :
    AuthorizeNetGateway :=
  match g.subscriptions gatewaySubscriptionId with
  | some sub =>
    { g with
      subscriptions := Function.update g.subscriptions gatewaySubscriptionId
        (some { sub with status := "canceled" }) }
  | none => g

/-- Refund a charge; the answer to a key is logged, and a charge that was
refunded before is not refunded again. -/
def refundCharge (random : Nat → String) (gatewayTransactionId : String) (amount : JsNum)
    (idempotencyKey : String) (g : AuthorizeNetGateway) : RefundResult × AuthorizeNetGateway :=
  match g.refundLog idempotencyKey with
  | some cached => (cached, g)
  | none =>
    let charge := g.charges gatewayTransactionId
    if charge.any (·.status = .refunded) then
      -- already refunded at the gateway
      let result : RefundResult := ⟨"an_refund_" ++ gatewayTransactionId, .num amount⟩
      (result, { g with refundLog := Function.update g.refundLog idempotencyKey (some result) })
    else
      let charges :=
        match charge with
        | some charge =>
          Function.update g.charges gatewayTransactionId (some { charge with status := .refunded })
        | none => g.charges
      let result : RefundResult := ⟨"an_refund_" ++ random g.drawn, .num amount⟩
      (result,
        { g with
          charges
          refundLog := Function.update g.refundLog idempotencyKey (some result)
          drawn := g.drawn + 1 })

/-- Register a charge, so that it can be refunded. -/
def registerCharge (gatewayTransactionId gatewaySubscriptionId : String) (amount : JsNum)
    (g : AuthorizeNetGateway) : AuthorizeNetGateway :=
  { g with
    charges := Function.update g.charges gatewayTransactionId
      (some ⟨gatewayTransactionId, gatewaySubscriptionId, amount, .ok⟩) }

end AuthorizeNetGateway

/-- A call of the card gateway. -/
inductive AuthorizeNetCall
  | createSubscription (userId : String) (plan : SubscriptionPlan)
  | cancelSubscription (gatewaySubscriptionId : String)
  | refundCharge (gatewayTransactionId : String) (amount : JsNum) (idempotencyKey : String)
  | registerCharge (gatewayTransactionId gatewaySubscriptionId : String) (amount : JsNum)

/-- The answer to a call, and the state after it. -/
def AuthorizeNetCall.run (random : Nat → String) :
    AuthorizeNetCall → AuthorizeNetGateway → GatewayAnswer × AuthorizeNetGateway
  | createSubscription userId plan, g =>
    let (subscription, g) := g.createSubscription random userId plan
    (.created subscription, g)
  | cancelSubscription id, g => (.done, g.cancelSubscription id)
  | refundCharge txn amount key, g =>
    let (result, g) := g.refundCharge random txn amount key
    (.refunded result, g)
  | registerCharge txn subscription amount, g => (.done, g.registerCharge txn subscription amount)

end PaymentBilling

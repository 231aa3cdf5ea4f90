import PaymentBilling.Gateways.AuthorizeNet

/-!
# Gateways.Solana

`SolanaGateway`: the mock of the on-chain gateway, with its state in memory.

A charge that was refunded is refunded again under another key: the status is
written but never read.
-/

namespace PaymentBilling

structure SolanaSubscription where
  pda : String
  userId : String
  userWallet : String
  plan : SubscriptionPlan
  status : String

/-- The statuses of an on-chain charge. -/
inductive SolanaChargeStatus
  | pending | confirmed | refunded
  deriving DecidableEq

structure SolanaCharge where
  txHash : String
  amount : JsNum
  status : SolanaChargeStatus

/-- The state of the on-chain gateway. -/
structure SolanaGateway where
  subscriptions : String → Option SolanaSubscription := fun _ => none
  charges : String → Option SolanaCharge := fun _ => none
  refundLog : String → Option RefundResult := fun _ => none
  drawn : Nat := 0

namespace SolanaGateway

/-- Create a subscription; its address and the wallet are random. -/
def createSubscription (random : Nat → String) (userId : String) (plan : SubscriptionPlan)
    (g : SolanaGateway) : CreatedSubscription × SolanaGateway :=
  let pda := "Sub" ++ random g.drawn
  let wallet := "Wal" ++ random (g.drawn + 1)
  (⟨pda, wallet, [("walletAddress", .str wallet), ("subscriptionPda", .str pda),
      ("chain", .str "SOLANA")]⟩,
    { g with
      subscriptions := Function.update g.subscriptions pda (some ⟨pda, userId, wallet, plan, "active"⟩)
      drawn := g.drawn + 2 })

/-- Cancel a subscription, if it is known. -/
def cancelSubscription (gatewaySubscriptionId : String) (g : SolanaGateway) : SolanaGateway :=
  match g.subscriptions gatewaySubscriptionId with
  | some sub =>
    { g with
      subscriptions := Function.update g.subscriptions gatewaySubscriptionId
        (some { sub with status := "canceled" }) }
  | none => g

/-- Refund a charge; the answer to a key is logged. -/
def refundCharge (random : Nat → String) (gatewayTransactionId : String) (amount : JsNum)
    (idempotencyKey : String) (g : SolanaGateway) : RefundResult × SolanaGateway :=
  match g.refundLog idempotencyKey with
  | some cached => (cached, g)
  | none =>
    let charges :=
      match g.charges gatewayTransactionId with
      | some charge =>
        Function.update g.charges gatewayTransactionId (some { charge with status := .refunded })
      | none => g.charges
    let result : RefundResult := ⟨"sol_refund_" ++ random g.drawn, .num amount⟩
    (result,
      { g with
        charges
        refundLog := Function.update g.refundLog idempotencyKey (some result)
        drawn := g.drawn + 1 })

/-- Register a confirmed charge. -/
def registerCharge (txHash : String) (amount : JsNum) (g : SolanaGateway) : SolanaGateway :=
  { g with charges := Function.update g.charges txHash (some ⟨txHash, amount, .confirmed⟩) }

end SolanaGateway

/-- A call of the on-chain gateway. -/
inductive SolanaCall
  | createSubscription (userId : String) (plan : SubscriptionPlan)
  | cancelSubscription (gatewaySubscriptionId : String)
  | refundCharge (gatewayTransactionId : String) (amount : JsNum) (idempotencyKey : String)
  | registerCharge (txHash : String) (amount : JsNum)

/-- The answer to a call, and the state after it. -/
def SolanaCall.run (random : Nat → String) : SolanaCall → SolanaGateway → GatewayAnswer × SolanaGateway
  | createSubscription userId plan, g =>
    let (subscription, g) := g.createSubscription random userId plan
    (.created subscription, g)
  | cancelSubscription id, g => (.done, g.cancelSubscription id)
  | refundCharge txn amount key, g =>
    let (result, g) := g.refundCharge random txn amount key
    (.refunded result, g)
  | registerCharge txHash amount, g => (.done, g.registerCharge txHash amount)

end PaymentBilling

import PaymentBilling.Store.Statement

/-!
# Services.Subscriptions

`SubscriptionsService`: activation and immediate cancellation, inside the
transaction of a gateway event, and what users do with their subscriptions.
-/

namespace PaymentBilling

/-- The parameters of `createOrUpdateFromGateway`. -/
structure GatewayActivation where
  userId : Js
  plan : Js
  gatewayType : PaymentGateway
  gatewaySubscriptionId : Js
  gatewayCustomerId : Js
  gatewayData : Metadata
  currentPeriodStart : Option Js := none
  currentPeriodEnd : Option Js := none

namespace SubscriptionsService

/-- Activate a subscription and record what the gateway calls it. -/
def createOrUpdateFromGateway (params : GatewayActivation) : Action Subscription := do
  let subscription ← query (.subscriptionUpsert
    { userId := params.userId, plan := params.plan
      currentPeriodStart := params.currentPeriodStart
      currentPeriodEnd := params.currentPeriodEnd })
  let _ ← query (.gatewaySubscriptionUpsert
    { subscriptionId := subscription.id, gatewayType := params.gatewayType
      gatewaySubscriptionId := params.gatewaySubscriptionId
      gatewayCustomerId := params.gatewayCustomerId, gatewayData := params.gatewayData })
  return subscription

/-- Cancel a subscription, if there is one. -/
def cancelImmediately (userId : Js) : Action (Option Subscription) := do
  match ← query (.subscriptionFindUnique userId) with
  | none => return none
  | some _ =>
    let updated ← query (.subscriptionCancel userId)
    return some updated

/-- Cancel a subscription at the end of its period. -/
def cancelAtPeriodEnd (userId : Js) : Action Subscription := do
  match ← query (.subscriptionFindUnique userId) with
  | none => throw (.notFound "No subscription to cancel")
  | some sub =>
    if sub.status = .CANCELED then throw (.badRequest "Subscription is already canceled")
    else query (.subscriptionCancelAtPeriodEnd userId true)

/-- Take back a cancellation at the end of the period. -/
def reactivate (userId : Js) : Action Subscription := do
  match ← query (.subscriptionFindUnique userId) with
  | none => throw (.notFound "No subscription to reactivate")
  | some sub =>
    if !sub.cancelAtPeriodEnd then
      throw (.badRequest "Subscription is not pending cancellation")
    else if sub.status ≠ .ACTIVE then
      throw (.badRequest "Only active subscriptions can be reactivated")
    else query (.subscriptionCancelAtPeriodEnd userId false)

end SubscriptionsService

end PaymentBilling

import PaymentBilling.Store.Statement

/-!
# Services.Credits

`CreditsService`: the flat credit balance of a user and the log of its changes.

A grant and a deduction each run in a transaction of their own, whatever the
caller has open.  Both look up their idempotency key first; only a deduction
locks the balance before it reads it.
-/

namespace PaymentBilling

/-- What a change of the balance answers. -/
structure CreditsResult where
  balance : Int
  transactionId : String
  deriving DecidableEq

namespace CreditsService

/-- `credits?.balance ?? 0`. -/
def balanceOrZero (credits : Option Credits) : Int := (credits.map (·.balance)).getD 0

/-- A key that is present and not the empty string. -/
def givenKey (idempotencyKey : Option String) : Option String := idempotencyKey.filter (· ≠ "")

/-- The answer of a call whose key is already in the log. -/
def shortCircuit (userId : Js) (existing : CreditTransaction) : Action CreditsResult := do
  let credits ← query (.creditsFindUnique userId)
  return { balance := balanceOrZero credits, transactionId := existing.id }

/-- Raise the balance and log it: the common body of `addCredits` and
`refundCredits`, which differ in the type of the logged row. -/
def grantCredits (userId amount : Js) (type : CreditTransactionType)
    (description idempotencyKey : String) (metadata : Metadata) : Action CreditsResult :=
  if amount.le (.int 0) then throw (.badRequest "Amount must be positive")
  else transaction do
    match ← query (.creditTransactionFindFirst idempotencyKey) with
    | some existing => shortCircuit userId existing
    | none =>
      let credits ← query (.creditsUpsert userId amount)
      let transaction ← query (.creditTransactionCreate
        { creditsId := credits.id, amount, type, description
          idempotencyKey := some idempotencyKey, metadata })
      return { balance := credits.balance, transactionId := transaction.id }

/-- Grant credits to a user. -/
def addCredits (userId amount : Js) (type : CreditTransactionType)
    (description idempotencyKey : String) (metadata : Metadata := []) : Action CreditsResult :=
  grantCredits userId amount type description idempotencyKey metadata

/-- Refund credits to a user. -/
def refundCredits (userId amount : Js) (description idempotencyKey : String)
    (metadata : Metadata := []) : Action CreditsResult :=
  grantCredits userId amount .REFUND description idempotencyKey metadata

/-- Lower the balance, once it is locked and covers the amount. -/
def deductLocked (userId amount : Js) (description : String) (idempotencyKey : Option String)
    (metadata : Metadata) : Action CreditsResult := do
  match ← query (.creditsForUpdate userId) with
  | [] => throw (.badRequest "Insufficient credits")
  | locked :: _ =>
    if (Js.int locked.balance).lt amount then throw (.badRequest "Insufficient credits")
    else
      let updated ← query (.creditsUpdate userId amount)
      let transaction ← query (.creditTransactionCreate
        { creditsId := locked.id, amount := amount.neg, type := .USAGE, description
          idempotencyKey, metadata })
      return { balance := updated.balance, transactionId := transaction.id }

/-- Deduct credits from a user. -/
def deductCredits (userId amount : Js) (description : String)
    (idempotencyKey : Option String := none) (metadata : Metadata := []) :
    Action CreditsResult :=
  if amount.le (.int 0) then throw (.badRequest "Amount must be positive")
  else transaction do
    match givenKey idempotencyKey with
    | none => deductLocked userId amount description none metadata
    | some key =>
      match ← query (.creditTransactionFindFirst key) with
      | some existing => shortCircuit userId existing
      | none => deductLocked userId amount description (some key) metadata

end CreditsService

end PaymentBilling

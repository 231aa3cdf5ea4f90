import PaymentBilling.Store.Statement

/-!
# Services.BillingConfig

`BillingConfigService`: parameters that are read from the database.
-/

namespace PaymentBilling.BillingConfigService

/-- The configured value, or the default. -/
def get (key defaultValue : String) : Action String := do
  match ← query (.billingConfigFindUnique key) with
  | none => return defaultValue
  | some row => return row.value

/-- The configured value as an integer; the default when it is none. -/
def getInt (key : String) (defaultValue : Int) : Action Int := do
  let raw ← get key (toString defaultValue)
  return (parseInt raw).getD defaultValue

end PaymentBilling.BillingConfigService

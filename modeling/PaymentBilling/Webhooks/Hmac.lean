import Mathlib

/-!
# Webhooks.Hmac

The signature check of card webhooks.  HMAC-SHA256 itself comes from the
platform and is a parameter.
-/

namespace PaymentBilling

/-- The value of a hexadecimal digit. -/
def hexDigit (c : Char) : Option Nat :=
  if c.isDigit then some (c.toNat - '0'.toNat)
  else if 'a' ≤ c ∧ c ≤ 'f' then some (c.toNat - 'a'.toNat + 10)
  else if 'A' ≤ c ∧ c ≤ 'F' then some (c.toNat - 'A'.toNat + 10)
  else none

/-- `Buffer.from(s, 'hex')`: the bytes up to the first pair of characters that
is not a byte. -/
def bytesOfHex : List Char → List UInt8
  | c :: d :: cs =>
    match hexDigit c, hexDigit d with
    | some m, some n => UInt8.ofNat (16 * m + n) :: bytesOfHex cs
    | _, _ => []
  | _ => []

/-- `digest('hex')`: two lower-case digits for each byte. -/
def hexOfBytes (bytes : List UInt8) : List Char :=
  bytes.flatMap fun b => [Nat.digitChar (b.toNat / 16), Nat.digitChar (b.toNat % 16)]

/-- The digest that signs a body. -/
abbrev HmacSha256 : Type := (rawBody : List UInt8) → (secret : String) → List UInt8

/-- The signature of a body. -/
def signHmac (hmacSha256 : HmacSha256) (rawBody : List UInt8) (secret : String) : String :=
  String.ofList (hexOfBytes (hmacSha256 rawBody secret))

/-- Whether the signature is the one of the body. -/
def verifyHmac (hmacSha256 : HmacSha256) (rawBody : List UInt8) (signature : Option String)
    (secret : String) : Bool :=
  match signature with
  | none => false
  | some signature =>
    if signature = "" then false
    else hmacSha256 rawBody secret = bytesOfHex signature.toList

end PaymentBilling

import Mathlib

/-!
# Js

The JavaScript values that reach the services from outside: the fields of a
webhook body are of type `any`, so every operator the services apply to them
(`!x`, `x <= 0`, `a < b`, `-x`, `a + b`, `===`, a template literal) is defined
here on all of them, and so is Prisma's check of a value against the type of its
column.

Finite numbers are exact rationals.  The services only ever add integers, and
a value that is not a 32-bit integer is refused by its column, so no rounding
of doubles is modelled.
-/

namespace PaymentBilling

/-- A JavaScript number. -/
inductive JsNum
  | nan
  | infinity (negative : Bool)
  | fin (q : Rat)
  deriving DecidableEq

/-- A JavaScript value.  Arrays and objects are never looked into: they only
have a text, which is what `String(x)` gives. -/
inductive Js
  | undefined
  | null
  | bool (b : Bool)
  | num (n : JsNum)
  | str (s : String)
  | array (text : String)
  | object (text : String)
  deriving DecidableEq

namespace JsNum

/-- `a < b`; false when either side is `NaN`. -/
def lt : JsNum → JsNum → Bool
  | nan, _ => false
  | _, nan => false
  | infinity a, infinity b => a && !b
  | infinity a, fin _ => a
  | fin _, infinity b => !b
  | fin p, fin q => p < q

/-- `a <= b`; false when either side is `NaN`. -/
def le : JsNum → JsNum → Bool
  | nan, _ => false
  | _, nan => false
  | infinity a, infinity b => a || !b
  | infinity a, fin _ => a
  | fin _, infinity b => !b
  | fin p, fin q => p ≤ q

/-- `a + b`. -/
def add : JsNum → JsNum → JsNum
  | nan, _ => nan
  | _, nan => nan
  | infinity a, infinity b => if a = b then infinity a else nan
  | infinity a, fin _ => infinity a
  | fin _, infinity b => infinity b
  | fin p, fin q => fin (p + q)

/-- `-a`. -/
def neg : JsNum → JsNum
  | nan => nan
  | infinity a => infinity !a
  | fin q => fin (-q)

/-- The digits of `rest / den` after the decimal point. -/
def decimals (den : Nat) : Nat → Nat → List Char
  | 0, _ => []
  | fuel + 1, rest =>
    if rest = 0 then []
    else Nat.digitChar (rest * 10 / den) :: decimals den fuel (rest * 10 % den)

/-- `String(a)`. -/
def text : JsNum → String
  | nan => "NaN"
  | infinity negative => if negative then "-Infinity" else "Infinity"
  | fin q =>
    if q.den = 1 then toString q.num
    else
      (if q.num < 0 then "-" else "") ++ toString (q.num.natAbs / q.den) ++ "." ++
        String.ofList (decimals q.den 17 (q.num.natAbs % q.den))

end JsNum

/-! ## Numbers from strings -/

/-- Leading decimal digits, as a number, how many there are, and what follows. -/
def readDigits (acc count : Nat) : List Char → Nat × Nat × List Char
  | [] => (acc, count, [])
  | c :: cs =>
    if c.isDigit then readDigits (acc * 10 + (c.toNat - '0'.toNat)) (count + 1) cs
    else (acc, count, c :: cs)

/-- A sign, if there is one. -/
def readSign : List Char → Int × List Char
  | '-' :: cs => (-1, cs)
  | '+' :: cs => (1, cs)
  | cs => (1, cs)

/-- White space and line terminators of ECMAScript. -/
def isJsSpace (c : Char) : Bool :=
  c.toNat ∈ [0x09, 0x0A, 0x0B, 0x0C, 0x0D, 0x20, 0xA0, 0x1680, 0x2028, 0x2029, 0x202F, 0x205F,
    0x3000, 0xFEFF] || (0x2000 ≤ c.toNat && c.toNat ≤ 0x200A)

/-- `s.trim()`, on characters. -/
def trimJs (cs : List Char) : List Char :=
  ((cs.dropWhile isJsSpace).reverse.dropWhile isJsSpace).reverse

/-- `parseInt(s, 10)`; `none` is `NaN`. -/
def parseInt (s : String) : Option Int :=
  let (sign, cs) := readSign (s.toList.dropWhile isJsSpace)
  match readDigits 0 0 cs with
  | (_, 0, _) => none
  | (n, _, _) => some (sign * n)

/-- `10 ^ e`. -/
def powTen : Int → Rat
  | .ofNat n => ((10 ^ n : Nat) : Rat)
  | .negSucc n => 1 / ((10 ^ (n + 1) : Nat) : Rat)

/-- The value of the digits `cs` in base `base`, if they all are such digits. -/
def readBase (base : Nat) (cs : List Char) : Option Nat :=
  if cs.isEmpty then none
  else cs.foldl (fun acc c => do
    let n ← acc
    let d ←
      if c.isDigit then some (c.toNat - '0'.toNat)
      else if 'a' ≤ c ∧ c ≤ 'f' then some (c.toNat - 'a'.toNat + 10)
      else if 'A' ≤ c ∧ c ≤ 'F' then some (c.toNat - 'A'.toNat + 10)
      else none
    if d < base then some (n * base + d) else none) (some 0)

/-- The exponent part of a decimal literal, if nothing else follows. -/
def readExponent : List Char → Option Int
  | [] => some 0
  | c :: cs =>
    if c = 'e' ∨ c = 'E' then
      let (sign, cs) := readSign cs
      match readDigits 0 0 cs with
      | (n, count, []) => if count = 0 then none else some (sign * n)
      | _ => none
    else none

/-- An unsigned decimal literal: `12`, `12.`, `1.5e3`, `.5`. -/
def readDecimal (cs : List Char) : Option Rat :=
  let (whole, count, cs) := readDigits 0 0 cs
  let (digits, fraction, rest) :=
    match cs with
    | '.' :: cs => readDigits whole 0 cs
    | cs => (whole, 0, cs)
  if count + fraction = 0 then none
  else (readExponent rest).map fun e => (digits : Rat) * powTen (e - fraction)

/-- `Number(s)`. -/
def numberOfString (s : String) : JsNum :=
  let cs := trimJs s.toList
  let ofOption : Option Rat → JsNum := fun
    | some q => .fin q
    | none => .nan
  match cs with
  | [] => .fin 0
  | '0' :: c :: rest =>
    if c = 'x' ∨ c = 'X' then ofOption ((readBase 16 rest).map fun n => (n : Rat))
    else if c = 'o' ∨ c = 'O' then ofOption ((readBase 8 rest).map fun n => (n : Rat))
    else if c = 'b' ∨ c = 'B' then ofOption ((readBase 2 rest).map fun n => (n : Rat))
    else ofOption (readDecimal cs)
  | cs =>
    let (sign, digits) := readSign cs
    if digits = "Infinity".toList then .infinity (sign = -1)
    else ofOption ((readDecimal digits).map fun q => (sign : Rat) * q)

/-! ## Operators -/

namespace Js

/-- An integer of the services as a value. -/
def int (n : Int) : Js := num (.fin n)

/-- `!!x`. -/
def truthy : Js → Bool
  | undefined => false
  | null => false
  | bool b => b
  | num .nan => false
  | num (.fin q) => q ≠ 0
  | num (.infinity _) => true
  | str s => s ≠ ""
  | array _ => true
  | object _ => true

/-- `x || y`. -/
def or (x y : Js) : Js := if x.truthy then x else y

/-- `x ?? y`. -/
def coalesce : Js → Js → Js
  | undefined, y => y
  | null, y => y
  | x, _ => x

/-- `String(x)`. -/
def text : Js → String
  | undefined => "undefined"
  | null => "null"
  | bool b => if b then "true" else "false"
  | num n => n.text
  | str s => s
  | array t => t
  | object t => t

/-- `Number(x)`. -/
def number : Js → JsNum
  | undefined => .nan
  | null => .fin 0
  | bool b => if b then .fin 1 else .fin 0
  | num n => n
  | str s => numberOfString s
  | array t => numberOfString t
  | object t => numberOfString t

/-- `x < y` where one side is a number. -/
def lt (x y : Js) : Bool := x.number.lt y.number

/-- `x <= y` where one side is a number. -/
def le (x y : Js) : Bool := x.number.le y.number

/-- `-x`. -/
def neg (x : Js) : Js := num x.number.neg

/-- Strings, arrays and objects: `+` concatenates as soon as one side is one. -/
def concatenates : Js → Bool
  | str _ => true
  | array _ => true
  | object _ => true
  | _ => false

/-- `x + y`. -/
def add (x y : Js) : Js :=
  if x.concatenates || y.concatenates then str (x.text ++ y.text)
  else num (x.number.add y.number)

/-- `x === y` on values that are not objects; `NaN` differs from itself. -/
def strictEq (x y : Js) : Bool := x = y ∧ x ≠ num .nan

/-! ## Column types -/

/-- The value as a 32-bit integer column takes it. -/
def int32? : Js → Option Int
  | num (.fin q) => if q.den = 1 ∧ -2147483648 ≤ q.num ∧ q.num ≤ 2147483647 then some q.num else none
  | _ => none

/-- The value as a text column that is not nullable takes it. -/
def string? : Js → Option String
  | str s => some s
  | _ => none

/-- The value as a nullable text column takes it; `undefined` leaves the
column out. -/
def nullableString? : Js → Option (Option String)
  | undefined => some none
  | null => some none
  | str s => some (some s)
  | _ => none

/-! ## Integers among the values -/

theorem int32?_eq_some {x : Js} {n : Int} (h : x.int32? = some n) : x = int n := by
  unfold int32? at h
  split at h
  · next q =>
    split at h
    · next hq =>
      rw [Option.some.injEq] at h
      have hn : q = (n : Rat) := Rat.ext (by simpa using h) (by simpa using hq.1)
      rw [hn, int]
    · cases h
  · cases h

theorem range_of_int32? {x : Js} {n : Int} (h : x.int32? = some n) :
    -2147483648 ≤ n ∧ n ≤ 2147483647 := by
  unfold int32? at h
  split at h
  · split at h
    · next hq => cases h; exact hq.2
    · cases h
  · cases h

@[simp] theorem int32?_int {n : Int} (h : -2147483648 ≤ n ∧ n ≤ 2147483647) :
    (int n).int32? = some n := by
  simp [int, int32?, h]

@[simp] theorem int_inj {m n : Int} : int m = int n ↔ m = n := by
  simp [int]

@[simp] theorem le_int (m n : Int) : (int m).le (int n) = decide (m ≤ n) := by
  simp [le, int, number, JsNum.le, Rat.intCast_le_intCast]

@[simp] theorem lt_int (m n : Int) : (int m).lt (int n) = decide (m < n) := by
  simp [lt, int, number, JsNum.lt, Rat.intCast_lt_intCast]

@[simp] theorem neg_int (n : Int) : (int n).neg = int (-n) := by
  simp [neg, int, number, JsNum.neg]

@[simp] theorem add_int (m n : Int) : (int m).add (int n) = int (m + n) := by
  simp [add, concatenates, int, number, JsNum.add]

@[simp] theorem strictEq_int (m n : Int) : (int m).strictEq (int n) = decide (m = n) := by
  simp [strictEq, int]

theorem string?_eq_some {x : Js} {s : String} : x.string? = some s ↔ x = str s := by
  cases x <;> simp [string?]

end Js

end PaymentBilling

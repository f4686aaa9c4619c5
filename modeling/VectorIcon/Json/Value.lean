/-
  VectorIcon.Json.Value
  ────────────────────────────────
  **JSON VALUES AND THEIR NUMBERS.**

  A number without fraction and exponent that fits 64 bits is kept as an
  integer.  Every other number is a double: its significand keeps the leading
  digits which fit 64 bits, further digits before the point only raise the
  exponent and further digits after it do not count; the significand is then
  multiplied or divided once by a power of ten.  A number above the range of
  doubles is no JSON number at all.
-/
import VectorIcon.Number.Decimal

namespace VectorIcon

namespace Json

/-! ## §1. Faults. -/

/-- What is wrong with JSON text. -/
inductive Fault where
  /-- The text is not JSON. -/
  | notJson
  /-- The text ends too early. -/
  | endOfText
  /-- The text is JSON, but not of the expected form. -/
  | mismatch
deriving DecidableEq, Repr, Inhabited

/-! ## §2. Numbers. -/

/-- A number. -/
inductive Number where
  | integer (n : Int)
  | double (negative : Bool) (magnitude : Dyadic)
deriving DecidableEq, Repr, Inhabited

/-- A number as it is written. -/
structure NumberText where
  negative : Bool
  whole : List Char
  /-- The digits after the point. -/
  fraction : Option (List Char)
  /-- The exponent: whether it is negative, and its digits. -/
  exponent : Option (Bool × List Char)
deriving Repr, Inhabited

namespace Number

/-- Bound of the significand. -/
def wordBound : Nat := 0x10000000000000000

/-- Append digits to a significand as long as it fits; also the digits which
    are left over. -/
def takeDigits (n : Nat) : List Char → Nat × List Char
  | [] => (n, [])
  | c :: cs =>
    let m := 10 * n + Decimal.digitValue c
    if m < wordBound then takeDigits m cs else (n, c :: cs)

/-- The double nearest to a power of ten. -/
def powerOfTen (k : Nat) : Dyadic :=
  (BinaryFormat.double.round (Nat.pow 10 k) 1).getD ⟨0, 0⟩

/-- The greatest power of ten which is a double. -/
def greatestPower : Nat := 308

/-- Divide by a power of ten, in several steps if it is no double. -/
def scaleDown (f : Dyadic) (k : Nat) : Dyadic :=
  if f.mantissa = 0 then f
  else if k ≤ greatestPower then (BinaryFormat.double.div f (powerOfTen k)).getD f
  else scaleDown ((BinaryFormat.double.div f (powerOfTen greatestPower)).getD f) (k - greatestPower)
termination_by k
decreasing_by simp only [greatestPower] at *; omega

/-- The significand times a power of ten. -/
def scale (significand : Nat) (exponent : Int) : Except Fault Dyadic :=
  let f := (BinaryFormat.double.round significand 1).getD ⟨0, 0⟩
  if exponent < 0 then .ok (scaleDown f exponent.natAbs)
  else if significand = 0 then .ok f
  else if greatestPower < exponent.toNat then .error .notJson
  else match BinaryFormat.double.mul f (powerOfTen exponent.toNat) with
    | some d => .ok d
    | none => .error .notJson

/-- The number of a written one. -/
def ofText (t : NumberText) : Except Fault Number :=
  let (n, left) := takeDigits 0 t.whole
  if t.fraction.isNone && t.exponent.isNone && left.isEmpty then
    if !t.negative then .ok (.integer n)
    else if 0 < n ∧ n ≤ 0x8000000000000000 then .ok (.integer (-n))
    else (scale n 0).map (.double true)
  else
    let fraction := t.fraction.getD []
    let (n, unused) := takeDigits n fraction
    let shift : Int := left.length - (fraction.length - unused.length : Nat)
    let exponent : Int := match t.exponent with
      | none => 0
      | some (negative, digits) =>
        let e : Int := Decimal.digitsValue digits
        if negative then -e else e
    (scale n (shift + exponent)).map (.double t.negative)

/-- The single precision number nearest to a number. -/
def toScalar : Number → Scalar
  | .integer n => Scalar.ofInt n
  | .double negative d => Scalar.ofRatio negative d.num d.den

end Number

/-! ## §3. Values. -/

/-- A value.  The members of an object are kept in order, repeated names
    included. -/
inductive Value where
  | null
  | bool (b : Bool)
  | number (n : Number)
  | string (s : List Char)
  | array (items : List Value)
  | object (members : List (List Char × Value))
deriving Inhabited

end Json

end VectorIcon

/-
  VectorIcon.Number.Scalar
  ────────────────────────────────
  **SINGLE PRECISION NUMBERS SEEN AS SIGN AND MAGNITUDE.**

  Every coordinate of a drawing and of an icon is a single precision number.
  Arithmetic and comparison are the IEEE operations of `Float32`; what the
  operations of this library need beyond them (is a number integral, its
  integer part, the nearest integer, the remainder by a full turn) is read off
  the exact view `magnitude?`, which decodes the bit fields into
  `mantissa · 2^exponent` and is none for infinities and NaN.
-/
import VectorIcon.Number.Rounding

namespace VectorIcon

/-- Coordinates, lengths, angles and opacities. -/
abbrev Scalar := Float32

namespace Scalar

/-! ## §1. The fields of the bit pattern. -/

/-- Whether the sign bit is set; also true of minus zero. -/
def isNegative (x : Scalar) : Bool := decide (0x80000000 ≤ x.toBits.toNat)

/-- The eight exponent bits. -/
def biasedExponent (x : Scalar) : Nat := x.toBits.toNat / 0x800000 % 256

/-- The twenty three fraction bits. -/
def fractionField (x : Scalar) : Nat := x.toBits.toNat % 0x800000

/-- The exact magnitude of a finite number, in the normal form of
    `BinaryFormat.round`; none for infinities and NaN. -/
def magnitude? (x : Scalar) : Option Dyadic :=
  let b := x.biasedExponent
  if b = 255 then none
  else if b = 0 then some ⟨x.fractionField, -149⟩
  else some ⟨0x800000 + x.fractionField, (b : Int) - 150⟩

/-- Neither infinite nor NaN. -/
def isFinite (x : Scalar) : Bool := x.biasedExponent != 255

/-- Not a number: the only values which differ from themselves. -/
def isNaN (x : Scalar) : Bool := x.biasedExponent == 255 && x.fractionField != 0

/-! ## §2. Numbers from exact values. -/

/-- Positive infinity. -/
def infinity : Scalar := Float32.ofBits 0x7f800000

/-- Apply a sign. -/
def withSign (negative : Bool) (x : Scalar) : Scalar := if negative then -x else x

/-- The number with the given magnitude in normal form.  The exponent field and
    the leading mantissa bit add up: a mantissa without its leading bit stands
    only at the least exponent, where the field is zero. -/
def ofMagnitude (d : Dyadic) : Scalar :=
  Float32.ofBits (UInt32.ofNat ((d.exponent + 149).toNat * 0x800000 + d.mantissa))

/-- The number nearest to `num / den`, infinity on overflow. -/
def ofRatio (negative : Bool) (num den : Nat) : Scalar :=
  withSign negative (((BinaryFormat.single.round num den).map ofMagnitude).getD infinity)

/-- The number nearest to an integer. -/
def ofInt (n : Int) : Scalar := ofRatio (decide (n < 0)) n.natAbs 1

/-! ## §3. Integers from numbers. -/

/-- Whether a finite number has no fraction; infinities and NaN have no
    integer part to be equal to. -/
def isIntegral (x : Scalar) : Bool := (x.magnitude?.map Dyadic.isIntegral).getD false

/-- Give a natural the sign of a number. -/
def signed (x : Scalar) (n : Nat) : Int := if x.isNegative then -(n : Int) else n

/-- The integer part, rounded toward zero; zero for infinities and NaN. -/
def truncate (x : Scalar) : Int := x.signed ((x.magnitude?.map Dyadic.floor).getD 0)

/-- The nearest integer, a half goes away from zero; none for infinities and
    NaN. -/
def nearestInt? (x : Scalar) : Option Int := x.magnitude?.map fun d => x.signed d.nearest

/-! ## §4. Ranges. -/

/-- The greater of two numbers; a NaN gives way to the other one. -/
def maximum (a b : Scalar) : Scalar :=
  if a.isNaN then b else if a < b then b else a

/-- The nearest number in `[0, 1]`; NaN stays what it is. -/
def clampUnit (x : Scalar) : Scalar :=
  if x < 0.0 then 0.0 else if 1.0 < x then 1.0 else x

/-- Half open range test, false for NaN. -/
def inRange (lo hi x : Scalar) : Bool := decide (lo ≤ x) && decide (x < hi)

/-! ## §5. Angles. -/

/-- Degrees of a full turn. -/
def turn : Scalar := 360.0

/-- NaN, the remainder of what is not finite. -/
def notANumber : Scalar := Float32.ofBits 0x7fc00000

/-- The exact remainder by a full turn, with the sign of the angle.  The
    remainder of `m · 2^e` is a multiple of `2^e` below the turn, hence it is
    representable and `ofRatio` does not round. -/
def remainderTurn (x : Scalar) : Scalar :=
  match x.magnitude? with
  | none => notANumber
  | some d => ofRatio x.isNegative (d.num % (360 * d.den)) d.den

/-- The angle in degrees brought into one turn by whole turns; a negative
    remainder is raised by one turn, which may round up to the turn itself. -/
def withinTurn (x : Scalar) : Scalar :=
  let r := x.remainderTurn
  if r < 0.0 then r + turn else r

end Scalar

end VectorIcon

/-
  VectorIcon.Number.Compact
  ────────────────────────────────
  **NUMBERS AS PATH DATA SHOWS THEM.**

  An integral number below a thousand millions is written as an integer, so
  that minus zero becomes `0`; every other number is written with the fewest
  digits, always with a fraction.
-/
import VectorIcon.Number.Notation

namespace VectorIcon

namespace Scalar

/-- Positional from `0.00001` to below `10000000000.0`; a lone digit before an
    exponent gets a fraction.  A decimal half way to the next smaller number is
    not used, and of two equally near decimals the greater one is written unless
    the number is a power of two. -/
def compactNotation : DecimalNotation where
  leastPositional := -5
  greatestPositional := 9
  pointBeforeExponent := true
  plusInExponent := false
  preference := ⟨.upUnlessPowerOfTwo, false⟩

/-- Bound of the numbers which are written as integers. -/
def integerBound : Scalar := 1000000000.0

/-- Whether a number is written as an integer. -/
def isCompactInteger (x : Scalar) : Bool := x.isIntegral && decide (x.abs < integerBound)

/-- The text of an integer. -/
def integerText (n : Int) : List Char :=
  (if n < 0 then ['-'] else []) ++ Nat.toDigits 10 n.natAbs

/-- The text of a number in path data. -/
def compactText (x : Scalar) : List Char :=
  if x.isCompactInteger then integerText x.truncate else compactNotation.text x

end Scalar

end VectorIcon

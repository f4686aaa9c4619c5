/-
  VectorIcon.Number.Shortest
  ────────────────────────────────
  **THE FEWEST DIGITS WHICH READ BACK.**

  A positive single precision number is written with the least number of
  significant digits for which some decimal reads back to it, and among the
  decimals of that many digits with the one nearest to it:

      for n = 1, 2, … take the two neighbours of the number on the grid of
      n digit decimals; the first grid with a neighbour that reads back wins,
      of two such neighbours the nearer

  `Shortest.digits` decides "reads back" by the very rounding which reads
  decimals, so that a result reads back by construction.  Which way an exact tie
  goes, and whether the decimal on the lower edge of those which read back is
  used, is left to the written form, see `Preference`.
-/
import VectorIcon.Number.Decimal

namespace VectorIcon

/-- Which of two equally near decimals is written. -/
inductive Tie where
  /-- The one whose last digit is even. -/
  | toEven
  /-- The greater one. -/
  | up
  /-- The greater one, but for a power of two the one whose last digit is even. -/
  | upUnlessPowerOfTwo
deriving DecidableEq, Repr

/-- What a written form decides about digits. -/
structure Preference where
  tie : Tie
  /-- Whether a decimal half way to the next smaller number is used, if it reads
      back. -/
  useLowerEdge : Bool
deriving DecidableEq, Repr

namespace Shortest

/-! ## §1. The place of the leading digit. -/

/-- `num / den ≥ 10^e`, decided without fractions. -/
def reachesPowerOfTen (num den : Nat) (e : Int) : Bool :=
  decide (den * Nat.pow 10 e.toNat ≤ num * Nat.pow 10 (-e).toNat)

/-- The exponent of the leading digit of a positive quotient: the greatest `e`
    with `10^e ≤ num / den`. -/
def leadingPower (num den : Nat) : Int :=
  let top : Int := (Decimal.digitCount num : Int) - Decimal.digitCount den
  if reachesPowerOfTen num den top then top else top - 1

/-! ## §2. Neighbours on a grid of decimals. -/

/-- Whether `c · 10^s` reads back to the number. -/
def readsBack (d : Dyadic) (c : Nat) (s : Int) : Bool :=
  BinaryFormat.single.round (c * Nat.pow 10 s.toNat) (Nat.pow 10 (-s).toNat) == some d

/-- The number counted in units of `10^s`, as a quotient. -/
def units (d : Dyadic) (s : Int) : Nat × Nat :=
  (d.num * Nat.pow 10 (-s).toNat, d.den * Nat.pow 10 s.toNat)

/-- Whether `c · 10^s` is half way to the next smaller number, which is one unit
    of the mantissa away. -/
def isLowerEdge (d : Dyadic) (c : Nat) (s : Int) : Bool :=
  let (n, u) := units d s
  2 * d.mantissa * (c * u) == (2 * d.mantissa - 1) * n

/-- Whether `c · 10^s` may be written for the number. -/
def isCandidate (p : Preference) (d : Dyadic) (c : Nat) (s : Int) : Bool :=
  readsBack d c s && (p.useLowerEdge || !isLowerEdge d c s)

/-- The least mantissa of full width, which powers of two have. -/
def powerMantissa : Nat := 0x800000

/-- Whether the smaller one of two equally near coefficients is written. -/
def takesBelow (tie : Tie) (d : Dyadic) (below : Nat) : Bool :=
  match tie with
  | .toEven => below % 2 == 0
  | .up => false
  | .upUnlessPowerOfTwo => d.mantissa == powerMantissa && below % 2 == 0

/-- The neighbour of the number in units of `10^s` which may be written, the
    nearer one if both may. -/
def neighbour? (p : Preference) (d : Dyadic) (s : Int) : Option Nat :=
  let (n, u) := units d s
  let below := n / u
  let above := below + 1
  match isCandidate p d below s, isCandidate p d above s with
  | true, false => some below
  | false, true => some above
  | false, false => none
  | true, true =>
    let r := n % u
    if 2 * r < u then some below
    else if u < 2 * r then some above
    else some (if takesBelow p.tie d below then below else above)

/-! ## §3. Digits of a number. -/

/-- Take the trailing zeros of a coefficient into the exponent. -/
def stripZeros : Nat → Nat → Int → Nat × Int
  | 0, c, s => (c, s)
  | fuel + 1, c, s => if c % 10 = 0 then stripZeros fuel (c / 10) (s + 1) else (c, s)

/-- The exact decimal expansion, which every dyadic number has. -/
def expansion (d : Dyadic) : Nat × Int :=
  (d.mantissa * Nat.pow 2 d.exponent.toNat * Nat.pow 5 (-d.exponent).toNat, min d.exponent 0)

/-- Search the grids of `n`, `n + 1`, … significant digits. -/
def search (p : Preference) (d : Dyadic) (leading : Int) : Nat → Nat → Nat × Int
  | 0, _ => expansion d
  | fuel + 1, n =>
    let s := leading - n + 1
    match neighbour? p d s with
    | some c => (c, s)
    | none => search p d leading fuel (n + 1)

/-- Nine digits tell all single precision numbers apart. -/
def greatestDigitCount : Nat := 9

/-- Coefficient, not divisible by ten, and exponent of the shortest decimal
    which reads back to a positive number. -/
def digits (p : Preference) (d : Dyadic) : Nat × Int :=
  let (c, s) := search p d (leadingPower d.num d.den) greatestDigitCount 1
  stripZeros (Decimal.digitCount c) c s

end Shortest

end VectorIcon

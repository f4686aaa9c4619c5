/-
  VectorIcon.Number.Notation
  ────────────────────────────────
  **HOW DIGITS ARE LAID OUT.**

  Three places of the library write numbers with the fewest digits: path data,
  JSON text and the message about a bad view box.  They agree on the digits up
  to ties and differ in layout.  A `DecimalNotation` holds the decisions of one
  layout; its three values stand in the modules which write the text.

  All of them show a number without a fraction with the fraction `.0` when the
  notation is positional.
-/
import VectorIcon.Number.Shortest

namespace VectorIcon

/-- The layout decisions of a written form of numbers. -/
structure DecimalNotation where
  /-- Least power of ten of the leading digit which is written positionally. -/
  leastPositional : Int
  /-- Greatest power of ten of the leading digit which is written positionally. -/
  greatestPositional : Int
  /-- Whether a lone digit before an exponent gets the fraction `.0`. -/
  pointBeforeExponent : Bool
  /-- Whether a positive exponent gets a plus sign. -/
  plusInExponent : Bool
  /-- Which of the shortest decimals is written. -/
  preference : Preference

namespace DecimalNotation

/-- Positional layout of digits whose leading one has the power `p`. -/
def positional (digits : List Char) (p : Int) : List Char :=
  if p < 0 then '0' :: '.' :: (List.replicate (-p - 1).toNat '0' ++ digits)
  else
    let whole := p.toNat + 1
    if digits.length ≤ whole then
      digits ++ List.replicate (whole - digits.length) '0' ++ ['.', '0']
    else digits.take whole ++ '.' :: digits.drop whole

/-- Layout with an exponent: one digit stands before the point. -/
def exponential (n : DecimalNotation) (digits : List Char) (p : Int) : List Char :=
  let fraction := digits.drop 1
  let mantissa :=
    if fraction.isEmpty then
      digits ++ (if n.pointBeforeExponent then ['.', '0'] else [])
    else digits.take 1 ++ '.' :: fraction
  let sign := if p < 0 then ['-'] else if n.plusInExponent then ['+'] else []
  mantissa ++ 'e' :: (sign ++ Nat.toDigits 10 p.natAbs)

/-- The text of a magnitude. -/
def magnitudeText (n : DecimalNotation) (d : Dyadic) : List Char :=
  if d.mantissa = 0 then ['0', '.', '0']
  else
    let (c, s) := Shortest.digits n.preference d
    let digits := Nat.toDigits 10 c
    let p := s + digits.length - 1
    if n.leastPositional ≤ p ∧ p ≤ n.greatestPositional then positional digits p
    else n.exponential digits p

/-- The text of a number. -/
def text (n : DecimalNotation) (x : Scalar) : List Char :=
  match x.magnitude? with
  | some d => (if x.isNegative then ['-'] else []) ++ n.magnitudeText d
  | none =>
    if x.isNaN then ['N', 'a', 'N']
    else (if x.isNegative then ['-'] else []) ++ ['i', 'n', 'f']

end DecimalNotation

end VectorIcon

/-
  VectorIcon.Number.Rounding
  ────────────────────────────────
  **ROUNDING A QUOTIENT TO A BINARY FORMAT.**

  A finite binary number is `mantissa · 2^exponent`.  A format fixes how many
  bits the mantissa may have and which exponents exist; `BinaryFormat.round`
  takes a quotient of naturals to the nearest member of the format, a tie to
  the member with the even mantissa, in exact `Nat` arithmetic:

      round f num den = some d   — `d` is the member nearest to num/den
      round f num den = none     — the nearest member would need an exponent
                                   above the greatest one (overflow)

  The answer is normal form: the mantissa is full width unless the exponent is
  already the least one, so equal values have equal representations and can be
  compared by `=`.
-/

namespace VectorIcon

/-! ## §1. Division to the nearest natural. -/

/-- The natural nearest to `n / d`; a tie goes to the even neighbour. -/
def divNearestEven (n d : Nat) : Nat :=
  let q := n / d
  let r := n % d
  if 2 * r < d then q
  else if d < 2 * r then q + 1
  else q + q % 2

/-- The natural nearest to `n / d`; a tie goes up. -/
def divNearestUp (n d : Nat) : Nat := (2 * n + d) / (2 * d)

/-! ## §2. Dyadic magnitudes. -/

/-- The nonnegative number `mantissa · 2^exponent`. -/
structure Dyadic where
  mantissa : Nat
  exponent : Int
deriving DecidableEq, Repr, Inhabited

namespace Dyadic

/-- Numerator of the number as a quotient of naturals. -/
def num (d : Dyadic) : Nat := d.mantissa * Nat.pow 2 d.exponent.toNat

/-- Denominator of the number as a quotient of naturals, a power of two. -/
def den (d : Dyadic) : Nat := Nat.pow 2 (-d.exponent).toNat

/-- Whether the number has no fraction. -/
def isIntegral (d : Dyadic) : Bool := d.num % d.den == 0

/-- The greatest natural which is not above the number. -/
def floor (d : Dyadic) : Nat := d.num / d.den

/-- The natural nearest to the number; a half goes up. -/
def nearest (d : Dyadic) : Nat := divNearestUp d.num d.den

end Dyadic

/-! ## §3. Formats and rounding. -/

/-- The numbers `m · 2^e` with `m < 2^precision` and
    `minExponent ≤ e ≤ maxExponent`. -/
structure BinaryFormat where
  precision : Nat
  minExponent : Int
  maxExponent : Int

namespace BinaryFormat

/-- IEEE single precision. -/
def single : BinaryFormat := ⟨24, -149, 104⟩

/-- IEEE double precision. -/
def double : BinaryFormat := ⟨53, -1074, 971⟩

/-- `num / den ≥ 2^e`, decided without fractions. -/
def reachesPower (num den : Nat) (e : Int) : Bool :=
  decide (den * Nat.pow 2 e.toNat ≤ num * Nat.pow 2 (-e).toNat)

/-- The exponent of the leading bit of a positive quotient: the greatest `e`
    with `2^e ≤ num / den`.  The bit lengths of both sides leave two
    possibilities, one comparison decides between them. -/
def leadingExponent (num den : Nat) : Int :=
  let top : Int := (num.log2 : Int) - den.log2
  if reachesPower num den top then top else top - 1

/-- The quotient `num / den` counted in units of `2^e`, to the nearest. -/
def countUnits (num den : Nat) (e : Int) : Nat :=
  divNearestEven (num * Nat.pow 2 (-e).toNat) (den * Nat.pow 2 e.toNat)

/-- The member of the format nearest to `num / den`, none on overflow. -/
def round (f : BinaryFormat) (num den : Nat) : Option Dyadic :=
  if num = 0 then some ⟨0, f.minExponent⟩
  else
    let e := max (leadingExponent num den - f.precision + 1) f.minExponent
    let m := countUnits num den e
    -- rounding up may have carried into one more bit
    let d : Dyadic := if m = Nat.pow 2 f.precision then ⟨Nat.pow 2 (f.precision - 1), e + 1⟩ else ⟨m, e⟩
    if d.exponent ≤ f.maxExponent then some d else none

/-- A product, rounded to the format. -/
def mul (f : BinaryFormat) (a b : Dyadic) : Option Dyadic :=
  f.round (a.num * b.num) (a.den * b.den)

/-- A quotient, rounded to the format. -/
def div (f : BinaryFormat) (a b : Dyadic) : Option Dyadic :=
  f.round (a.num * b.den) (a.den * b.num)

end BinaryFormat

end VectorIcon

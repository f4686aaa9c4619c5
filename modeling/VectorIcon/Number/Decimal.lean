/-
  VectorIcon.Number.Decimal
  ────────────────────────────────
  **DECIMAL NUMERALS AND THE NUMBER NEAREST TO THEM.**

  A `Decimal` is an exact signed decimal number, `coefficient · 10^exponent`.
  `Decimal.toScalar` takes it to the nearest single precision number.  The
  written form shared by path data and by attributes is

      [+-]? (digits (. digits?)? | . digits) ([eE] [+-]? digits)?

  `Decimal.scan` reads the longest such numeral at the front of a text and says
  what is missing if there is none.  The remaining text is always a suffix of
  the given one, and a strictly shorter one (`scan_length_lt`).
-/
import VectorIcon.Number.Scalar

namespace VectorIcon

/-! ## §1. Exact decimals. -/

/-- The number `± coefficient · 10^exponent`. -/
structure Decimal where
  negative : Bool
  coefficient : Nat
  exponent : Int
deriving DecidableEq, Repr

namespace Decimal

/-- How many decimal digits a natural is written with. -/
def digitCount (n : Nat) : Nat := (Nat.toDigits 10 n).length

/-- Numerator of the magnitude. -/
def num (d : Decimal) : Nat := d.coefficient * Nat.pow 10 d.exponent.toNat

/-- Denominator of the magnitude. -/
def den (d : Decimal) : Nat := Nat.pow 10 (-d.exponent).toNat

/-- The single precision number nearest to the decimal.  A nonzero magnitude
    lies in `[10^(p-1), 10^p)` for its position `p`; far outside of the range of
    single precision the answer is known without the powers of ten. -/
def toScalar (d : Decimal) : Scalar :=
  let position : Int := digitCount d.coefficient + d.exponent
  if d.coefficient = 0 then Scalar.ofRatio d.negative 0 1
  else if 40 < position then Scalar.withSign d.negative Scalar.infinity
  else if position < -50 then Scalar.ofRatio d.negative 0 1
  else Scalar.ofRatio d.negative d.num d.den

/-! ## §2. Digits. -/

/-- The ASCII decimal digits. -/
def isDigit (c : Char) : Bool := decide ('0' ≤ c) && decide (c ≤ '9')

/-- The value of a digit. -/
def digitValue (c : Char) : Nat := c.toNat - '0'.toNat

/-- The value of a row of digits, most significant digit first. -/
def digitsValue (cs : List Char) : Nat := cs.foldl (fun n c => 10 * n + digitValue c) 0

/-- Split off the leading digits. -/
def splitDigits (cs : List Char) : List Char × List Char :=
  (cs.takeWhile isDigit, cs.dropWhile isDigit)

/-! ## §3. Reading a numeral. -/

/-- Why a text does not begin with a numeral. -/
inductive NumeralFault where
  /-- There is no digit, neither before nor after the point. -/
  | missingDigits
  /-- There is no digit after the exponent letter. -/
  | missingExponent
deriving DecidableEq, Repr

/-- Split off a sign; true for minus. -/
def splitSign : List Char → Bool × List Char
  | '-' :: r => (true, r)
  | '+' :: r => (false, r)
  | r => (false, r)

/-- Split off a point and the digits after it; a point alone counts. -/
def splitFraction : List Char → List Char × List Char
  | '.' :: r => splitDigits r
  | r => ([], r)

/-- Split off an exponent, zero if there is none. -/
def splitExponent : List Char → Except NumeralFault (Int × List Char)
  | [] => .ok (0, [])
  | c :: r =>
    if c = 'e' ∨ c = 'E' then
      let (negative, r) := splitSign r
      let (digits, r) := splitDigits r
      if digits.isEmpty then .error .missingExponent
      else
        let n : Int := digitsValue digits
        .ok (if negative then -n else n, r)
    else .ok (0, c :: r)

/-- Read the longest numeral at the front of a text. -/
def scan (cs : List Char) : Except NumeralFault (Decimal × List Char) :=
  let (negative, r) := splitSign cs
  let (whole, r) := splitDigits r
  let (fraction, r) := splitFraction r
  if whole.isEmpty && fraction.isEmpty then .error .missingDigits
  else do
    let (exponent, r) ← splitExponent r
    return (⟨negative, digitsValue (whole ++ fraction), exponent - fraction.length⟩, r)

/-- Read a text which is a numeral and nothing else. -/
def parse? (cs : List Char) : Option Decimal :=
  match scan cs with
  | .ok (d, []) => some d
  | _ => none

/-! ## §4. Reading consumes the text. -/

/-- Digits are split off without loss. -/
theorem splitDigits_length (cs : List Char) :
    (splitDigits cs).1.length + (splitDigits cs).2.length = cs.length := by
  rw [← List.length_append, splitDigits, List.takeWhile_append_dropWhile]

theorem splitSign_length_le (cs : List Char) : (splitSign cs).2.length ≤ cs.length := by
  unfold splitSign
  split <;> simp

/-- What follows a fraction is shorter by the digits of it. -/
theorem splitFraction_length_le (cs : List Char) :
    (splitFraction cs).1.length + (splitFraction cs).2.length ≤ cs.length := by
  unfold splitFraction
  split
  · next r => have := splitDigits_length r; simp only [List.length_cons]; omega
  · simp

theorem splitExponent_length_le {cs r : List Char} {e : Int}
    (h : splitExponent cs = .ok (e, r)) : r.length ≤ cs.length := by
  unfold splitExponent at h
  split at h
  · cases h; simp
  · next c t =>
    split at h
    · have h1 := splitSign_length_le t
      have h2 := splitDigits_length (splitSign t).2
      simp only at h
      split at h
      · cases h
      · cases h; simp only [List.length_cons]; omega
    · cases h; simp

/-- A numeral has at least one character. -/
theorem scan_length_lt {cs r : List Char} {d : Decimal} (h : scan cs = .ok (d, r)) :
    r.length < cs.length := by
  unfold scan at h
  have h1 := splitSign_length_le cs
  have h2 := splitDigits_length (splitSign cs).2
  have h3 := splitFraction_length_le (splitDigits (splitSign cs).2).2
  simp only at h
  split at h
  · cases h
  · next hne =>
    match he : splitExponent (splitFraction (splitDigits (splitSign cs).2).2).2 with
    | .error f => rw [he] at h; cases h
    | .ok (e, t) =>
      rw [he] at h
      cases h
      have h4 := splitExponent_length_le he
      have h5 : 0 < (splitDigits (splitSign cs).2).1.length +
          (splitFraction (splitDigits (splitSign cs).2).2).1.length := by
        simp only [Bool.and_eq_true, List.isEmpty_iff_length_eq_zero, not_and] at hne
        omega
      show t.length < cs.length
      omega

end Decimal

end VectorIcon

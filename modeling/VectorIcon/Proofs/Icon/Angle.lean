/-
  VectorIcon.Proofs.Icon.Angle
  ────────────────────────────────
  **WHAT IS READ FOR THE ROTATION OF AN ARC.**

  A rotation is brought into one turn, divided by the turn, written as a
  zero-to-one number and multiplied by the turn again.  The remainder is exact
  (`Scalar.remainderTurn_exact`), so what is written lies between zero and one
  (`Scalar.fraction_bounds`).  A short word of such a number means exactly that
  number (`recoverZeroToOne_error`); a real is off by as little as that of a
  coordinate.  So a finite rotation comes back within 4000 units of 2^-24
  degrees (`rotation_error`).
-/
import VectorIcon.Proofs.Icon.Quantize
import VectorIcon.Proofs.Number.Decimal
import VectorIcon.Proofs.Number.Order

namespace VectorIcon

/-! ## §1. Within one turn. -/

namespace Scalar

theorem finite_turn : isFinite turn = true ∧ turn.value = 360 :=
  literal .positive 0xb40000 (-15) ⟨by norm_num, rfl⟩
    (by norm_num [Float.Model.UnpackedFloat.Sign.apply])

/-- A remainder by a turn has few bits: it is an integer below the turn, or what is
    left of a mantissa. -/
theorem short_remainder {d : Dyadic} (h : Fits d.mantissa d.exponent) :
    Short (((d.num % (360 * d.den) : ℕ) : ℚ) / d.den) := by
  obtain ⟨hmantissa, hleast, -⟩ := h
  by_cases he : 0 ≤ d.exponent
  · have hone : d.den = 1 := by
      unfold Dyadic.den
      rw [show (-d.exponent).toNat = 0 by omega]
    have hlt : d.num % (360 * 1) < 360 := Nat.mod_lt _ (by norm_num)
    rw [hone, Nat.cast_one, div_one]
    exact_mod_cast Short.ofInt (k := ((d.num % (360 * 1) : ℕ) : ℤ)) (by rw [abs_lt]; omega)
  · have hnum : d.num = d.mantissa := by
      unfold Dyadic.num
      rw [show d.exponent.toNat = 0 by omega]
      exact Nat.mul_one _
    have hle : d.num % (360 * d.den) ≤ d.mantissa := hnum ▸ Nat.mod_le _ _
    refine ⟨((d.num % (360 * d.den) : ℕ) : ℤ), d.exponent, by rw [abs_lt]; omega, hleast, ?_⟩
    rw [Rat.ofNat_zpow, show d.exponent.toNat = 0 by omega]
    show _ = _ * ((1 : ℕ) / (d.den : ℕ) : ℚ)
    rw [Int.cast_natCast, Nat.cast_one, mul_one_div]

/-- **The remainder by a turn is exact**, and below the turn. -/
theorem remainderTurn_exact {x : Scalar} (hx : isFinite x = true) :
    ∃ q : ℚ, 0 ≤ q ∧ q < 360 ∧ isFinite x.remainderTurn = true ∧
      x.remainderTurn.value = (if x.isNegative then -1 else 1) * q := by
  obtain ⟨d, hd, -⟩ := exists_magnitude hx
  have hden := den_pos d
  have hdenq : (0 : ℚ) < d.den := by exact_mod_cast hden
  have hlt : d.num % (360 * d.den) < 360 * d.den := Nat.mod_lt _ (by positivity)
  have hbelow : ((d.num % (360 * d.den) : ℕ) : ℚ) / d.den < 360 := by
    rw [div_lt_iff₀ hdenq]
    exact_mod_cast hlt
  have hnonneg : (0 : ℚ) ≤ ((d.num % (360 * d.den) : ℕ) : ℚ) / d.den := by positivity
  have hshort := short_remainder (magnitude_fits hd).1
  have happrox := ofRatio_approximates x.isNegative (d.num % (360 * d.den)) hden
  generalize ((d.num % (360 * d.den) : ℕ) : ℚ) / d.den = q at happrox hbelow hnonneg hshort
  refine ⟨q, hnonneg, hbelow, ?_⟩
  unfold remainderTurn
  rw [hd]
  apply happrox.exact_of_short
  · cases x.isNegative with
    | false => exact (one_mul q).symm ▸ hshort
    | true => exact (neg_one_mul q).symm ▸ hshort.neg
  · have hsign : |if x.isNegative = true then (-1 : ℚ) else 1| = 1 := by split <;> norm_num
    rw [abs_mul, hsign, one_mul, abs_of_nonneg hnonneg]
    exact hbelow.trans (by norm_num)

/-- The turn has few bits, as all quotients by it below have. -/
theorem short_turn : Short (360 : ℚ) := finite_turn.2 ▸ turn.value_short

/-- **An angle within one turn** is not negative and no more than a turn. -/
theorem withinTurn_bounds {x : Scalar} (hx : isFinite x = true) :
    isFinite x.withinTurn = true ∧ 0 ≤ x.withinTurn.value ∧ x.withinTurn.value ≤ 360 := by
  obtain ⟨hturn, hvturn⟩ := finite_turn
  obtain ⟨hzero, hvzero⟩ := finite_zero
  obtain ⟨q, hnonneg, hbelow, hfinite, hvalue⟩ := remainderTurn_exact hx
  unfold withinTurn
  simp only
  by_cases hneg : x.remainderTurn < 0.0
  · -- a negative remainder is raised by a turn, and the sum may round up to the turn
    rw [if_pos hneg]
    rw [lt_iff hfinite hzero, hvzero] at hneg
    have hlow : -360 < x.remainderTurn.value := by
      rw [hvalue]
      split <;> linarith
    have hraised := add_approximates hfinite hturn
    rw [hvturn] at hraised
    have hpos : 0 ≤ x.remainderTurn.value + 360 := by linarith
    have hf := hraised.finite (by rw [abs_of_nonneg hpos]; linarith)
    have hrounds := hraised.rounds hf
    exact ⟨hf, hrounds.nonneg (value_short _) hpos,
      hrounds.le_of_short (value_short _) short_turn hpos (by linarith)⟩
  · rw [if_neg hneg]
    rw [lt_iff hfinite hzero, hvzero, not_lt] at hneg
    refine ⟨hfinite, hneg, ?_⟩
    rw [hvalue]
    split <;> linarith

/-- **An angle within one turn is a fraction of the turn** between zero and one. -/
theorem fraction_bounds {x : Scalar} (hx : isFinite x = true) :
    isFinite (x.withinTurn / turn) = true ∧ 0 ≤ (x.withinTurn / turn).value ∧
      (x.withinTurn / turn).value ≤ 1 := by
  obtain ⟨hturn, hvturn⟩ := finite_turn
  obtain ⟨hfinite, hlow, hhigh⟩ := withinTurn_bounds hx
  have happrox := div_approximates hfinite hturn (by rw [hvturn]; norm_num)
  rw [hvturn] at happrox
  have hnonneg : 0 ≤ x.withinTurn.value / 360 := by positivity
  have hle : x.withinTurn.value / 360 ≤ 1 := by linarith
  have hf := happrox.finite (by rw [abs_of_nonneg hnonneg]; linarith)
  have hrounds := happrox.rounds hf
  have hone : Short (1 : ℚ) := by exact_mod_cast Short.ofInt (k := 1) (by norm_num)
  exact ⟨hf, hrounds.nonneg (value_short _) hnonneg,
    hrounds.le_of_short (value_short _) hone hnonneg hle⟩

end Scalar

/-! ## §2. Zero-to-one numbers. -/

namespace Icon

/-- A fraction in two bytes is the number. -/
theorem fraction?_spec {x : Scalar} {n : ℕ} (h : Word.fraction? x = some n) :
    n < 16384 ∧ (Word.longFraction n == x) = true := by
  unfold Word.fraction? at h
  split at h
  · split at h
    · next hkept =>
      cases h
      rw [Bool.and_eq_true, decide_eq_true_eq] at hkept
      exact hkept
    · cases h
  · cases h

/-- **What is read for a zero-to-one number** equals it in one or two bytes, and is
    its real in four. -/
theorem recoverZeroToOne_sized (x : Scalar) :
    (zeroToOneSize x ≤ 2 ∧ (recoverZeroToOne x == x) = true) ∨
      (zeroToOneSize x = 4 ∧ recoverZeroToOne x = Word.real (Word.realBits x)) := by
  unfold zeroToOneSize recoverZeroToOne Word.ofZeroToOne
  cases hfraction : Word.fraction? x with
  | none => exact .inr ⟨rfl, rfl⟩
  | some n =>
    obtain ⟨hn, hlong⟩ := fraction?_spec hfraction
    left
    simp only
    split
    · next hshort =>
      rw [Bool.and_eq_true, Bool.and_eq_true, decide_eq_true_eq, decide_eq_true_eq] at hshort
      refine ⟨Nat.le_succ 1, ?_⟩
      show (Word.shortFraction (Word.payload _).toNat == x) = true
      rw [payload_one hshort.1.2]
      exact hshort.2
    · refine ⟨le_rfl, ?_⟩
      show (Word.longFraction (Word.payload _).toNat == x) = true
      rw [payload_two hn]
      exact hlong

/-- **A zero-to-one number is off by at most the 2^-22th part.** -/
theorem recoverZeroToOne_error {x : Scalar} (hx : x.isFinite = true) :
    (recoverZeroToOne x).isFinite = true ∧
      |(recoverZeroToOne x).value - x.value| ≤ |x.value| / 2 ^ 22 + 2 ^ (-147 : ℤ) := by
  rcases recoverZeroToOne_sized x with ⟨-, h⟩ | ⟨-, h⟩
  · have hagrees : (recoverZeroToOne x).Agrees x := .inl h
    refine ⟨hagrees.isFinite.trans hx, ?_⟩
    rw [hagrees.value, sub_self, abs_zero]
    positivity
  · rw [h]
    exact real_error hx

/-- **A finite rotation comes back** within 4000 units of 2^-24. -/
theorem rotation_error {r : Scalar} (hr : r.isFinite = true) :
    (recoverZeroToOne (r.withinTurn / Scalar.turn) * Scalar.turn).isFinite = true ∧
      |(recoverZeroToOne (r.withinTurn / Scalar.turn) * Scalar.turn).value - r.withinTurn.value| ≤
        4000 / 2 ^ 24 := by
  obtain ⟨hturn, hvturn⟩ := Scalar.finite_turn
  obtain ⟨hw, hwlow, hwhigh⟩ := Scalar.withinTurn_bounds hr
  obtain ⟨hc, hclow, hchigh⟩ := Scalar.fraction_bounds hr
  generalize r.withinTurn = w at hw hwlow hwhigh hc hclow hchigh
  have htiny : (2 : ℚ) ^ (-147 : ℤ) ≤ 1 / 2 ^ 40 := by norm_num
  have htiny' : (2 : ℚ) ^ (-150 : ℤ) ≤ 1 / 2 ^ 40 := by norm_num
  -- the quotient
  have hquotient := Scalar.div_approximates hw hturn (by rw [hvturn]; norm_num)
  rw [hvturn] at hquotient
  have hcerror := (hquotient.rounds hc).error_le
  rw [abs_of_nonneg (by positivity : 0 ≤ w.value / 360)] at hcerror
  generalize w / Scalar.turn = c at hc hclow hchigh hcerror ⊢
  -- the word
  obtain ⟨hz, hzerror⟩ := recoverZeroToOne_error hc
  rw [abs_of_nonneg hclow] at hzerror
  generalize recoverZeroToOne c = z at hz hzerror ⊢
  have hzclose : |z.value - w.value / 360| ≤ 6 / 2 ^ 24 := by
    have hsum := abs_sub_le z.value c.value (w.value / 360)
    linarith
  -- the product
  have hexact : |z.value * 360 - w.value| ≤ 2160 / 2 ^ 24 := by
    have hsplit : z.value * 360 - w.value = (z.value - w.value / 360) * 360 := by ring
    rw [hsplit, abs_mul, abs_of_pos (show (0 : ℚ) < 360 by norm_num)]
    linarith
  have hproduct : |z.value * 360| ≤ 363 := by
    have hsum := abs_sub_abs_le_abs_sub (z.value * 360) w.value
    rw [abs_of_nonneg hwlow] at hsum
    linarith
  have happrox := Scalar.mul_approximates hz hturn
  rw [hvturn] at happrox
  have hf := happrox.finite (hproduct.trans_lt (by norm_num))
  have herror := (happrox.rounds hf).error_le
  refine ⟨hf, ?_⟩
  have hsum := abs_sub_le (z * Scalar.turn).value (z.value * 360) w.value
  linarith

end Icon

end VectorIcon

/-
  VectorIcon.Proofs.Number.Decimal
  ────────────────────────────────
  **A DECIMAL IS READ AS THE NUMBER NEAREST TO IT.**

  Rounding a quotient only looks at its value (`BinaryFormat.round_congr`), so it
  does not matter with which coefficient and exponent a decimal is written; and
  the value of a single precision number rounds to that number
  (`BinaryFormat.round_exact`).  `Decimal.toScalar` answers without powers of ten
  far outside of the range; those answers are the rounded ones as well
  (`Decimal.toScalar_eq`).  So a decimal whose rounding is the magnitude of a
  number, with its sign, is read as that number (`Decimal.toScalar_of_round`).
-/
import VectorIcon.Number.Decimal
import VectorIcon.Proofs.Number.Conversion

namespace VectorIcon

/-! ## §1. Rounding looks at the value. -/

theorem divNearestEven_mul {k : ℕ} (hk : 0 < k) (n d : ℕ) :
    divNearestEven (k * n) (k * d) = divNearestEven n d := by
  unfold divNearestEven
  simp only [Nat.mul_div_mul_left n d hk, Nat.mul_mod_mul_left]
  have hlt : ∀ a b : ℕ, 2 * (k * a) < k * b ↔ 2 * a < b := fun a b => by
    rw [Nat.mul_left_comm]
    exact Nat.mul_lt_mul_left hk
  have hgt : ∀ a b : ℕ, k * b < 2 * (k * a) ↔ b < 2 * a := fun a b => by
    rw [Nat.mul_left_comm 2 k a]
    exact Nat.mul_lt_mul_left hk
  simp only [hlt, hgt]

/-- Equal quotients have the same nearest natural. -/
theorem divNearestEven_congr {n d n' d' : ℕ} (hd : 0 < d) (hd' : 0 < d') (h : n * d' = n' * d) :
    divNearestEven n d = divNearestEven n' d' := by
  rw [← divNearestEven_mul hd' n d, ← divNearestEven_mul hd n' d', Nat.mul_comm d' n, h,
    Nat.mul_comm n' d, Nat.mul_comm d' d]

namespace BinaryFormat

section Congr

variable {n d n' d' : ℕ} (hd : 0 < d) (hd' : 0 < d') (h : (n / d : ℚ) = n' / d')

include hd hd' h

theorem leadingExponent_congr (hn : 0 < n) (hn' : 0 < n') :
    leadingExponent n d = leadingExponent n' d' := by
  obtain ⟨hlow, hhigh⟩ := leadingExponent_spec hn hd
  obtain ⟨hlow', hhigh'⟩ := leadingExponent_spec hn' hd'
  rw [h] at hlow hhigh
  -- both are the exponent of the greatest power of two below
  have hle := (zpow_lt_zpow_iff_right₀ (by norm_num : (1 : ℚ) < 2)).1 (lt_of_le_of_lt hlow hhigh')
  have hge := (zpow_lt_zpow_iff_right₀ (by norm_num : (1 : ℚ) < 2)).1 (lt_of_le_of_lt hlow' hhigh)
  omega

theorem cross_eq : n * d' = n' * d := by
  have hdq : (d : ℚ) ≠ 0 := by exact_mod_cast hd.ne'
  have hdq' : (d' : ℚ) ≠ 0 := by exact_mod_cast hd'.ne'
  rw [div_eq_div_iff hdq hdq'] at h
  exact_mod_cast h

theorem countUnits_congr (e : ℤ) : countUnits n d e = countUnits n' d' e := by
  have hcross := cross_eq hd hd' h
  refine divNearestEven_congr (Nat.mul_pos hd (Nat.pow_pos (by norm_num)))
    (Nat.mul_pos hd' (Nat.pow_pos (by norm_num))) ?_
  show n * 2 ^ (-e).toNat * (d' * 2 ^ e.toNat) = n' * 2 ^ (-e).toNat * (d * 2 ^ e.toNat)
  calc n * 2 ^ (-e).toNat * (d' * 2 ^ e.toNat)
      = n * d' * (2 ^ (-e).toNat * 2 ^ e.toNat) := by ring
    _ = n' * d * (2 ^ (-e).toNat * 2 ^ e.toNat) := by rw [hcross]
    _ = n' * 2 ^ (-e).toNat * (d * 2 ^ e.toNat) := by ring

/-- **Equal quotients are rounded alike.** -/
theorem round_congr (f : BinaryFormat) : f.round n d = f.round n' d' := by
  have hcross := cross_eq hd hd' h
  unfold round
  by_cases hn : n = 0
  · have hn' : n' = 0 := by
      rw [hn, Nat.zero_mul] at hcross
      exact (Nat.mul_eq_zero.1 hcross.symm).resolve_right hd.ne'
    rw [if_pos hn, if_pos hn']
  · have hn' : n' ≠ 0 := fun hz => by
      rw [hz, Nat.zero_mul] at hcross
      exact hn ((Nat.mul_eq_zero.1 hcross).resolve_right hd'.ne')
    rw [if_neg hn, if_neg hn',
      leadingExponent_congr hd hd' h (Nat.pos_of_ne_zero hn) (Nat.pos_of_ne_zero hn')]
    simp only [countUnits_congr hd hd' h]

end Congr

/-- **What fits is not rounded.** -/
theorem round_exact {n d m : ℕ} {e : ℤ} (hd : 0 < d) (hfits : Fits m e) (he : e ≤ 104)
    (h : (n / d : ℚ) = m * 2 ^ e) : single.round n d = some ⟨m, e⟩ := by
  have hdq : (0 : ℚ) < d := by exact_mod_cast hd
  have hpow : (0 : ℚ) < 2 ^ e := by positivity
  obtain ⟨hlt, hge, hnormal⟩ := hfits
  unfold round
  by_cases hn : n = 0
  · have hm : m = 0 := by
      rw [hn, Nat.cast_zero, zero_div] at h
      have := (mul_eq_zero.1 h.symm).resolve_right hpow.ne'
      exact_mod_cast this
    obtain rfl : e = -149 := hnormal.resolve_left (by omega)
    rw [if_pos hn, hm]
    rfl
  · rw [if_neg hn]
    obtain ⟨hlow, hhigh⟩ := leadingExponent_spec (Nat.pos_of_ne_zero hn) hd
    rw [h] at hlow hhigh
    -- the units are those of the mantissa
    have hupper : leadingExponent n d < e + 24 := by
      refine (zpow_lt_zpow_iff_right₀ (by norm_num : (1 : ℚ) < 2)).1 (lt_of_le_of_lt hlow ?_)
      rw [zpow_add₀ (by norm_num), mul_comm]
      have : (m : ℚ) < 2 ^ (24 : ℤ) := by exact_mod_cast hlt
      gcongr
    have hunit : max (leadingExponent n d - (24 : ℕ) + 1) (-149) = e := by
      rcases hnormal with hbig | rfl
      · have hlower : e + 23 < leadingExponent n d + 1 := by
          refine (zpow_lt_zpow_iff_right₀ (by norm_num : (1 : ℚ) < 2)).1 (lt_of_le_of_lt ?_ hhigh)
          rw [zpow_add₀ (by norm_num), mul_comm]
          have : (2 : ℚ) ^ (23 : ℤ) ≤ m := by exact_mod_cast hbig
          gcongr
        omega
      · omega
    have hcount : countUnits n d e = m := by
      have hnear := countUnits_near n hd e
      rw [h, mul_div_assoc, div_self hpow.ne', mul_one, abs_le] at hnear
      have h1 : (countUnits n d e : ℚ) < (m + 1 : ℕ) := by
        push_cast
        linarith [hnear.2]
      have h2 : (m : ℚ) < (countUnits n d e + 1 : ℕ) := by
        push_cast
        linarith [hnear.1]
      have h1 : countUnits n d e < m + 1 := by exact_mod_cast h1
      have h2 : m < countUnits n d e + 1 := by exact_mod_cast h2
      omega
    simp only [show single.precision = 24 from rfl, show single.minExponent = -149 from rfl,
      show single.maxExponent = 104 from rfl, hunit, hcount]
    rw [if_neg (show ¬ m = Nat.pow 2 24 from hlt.ne), if_pos he]

end BinaryFormat

/-! ## §2. Numbers and their magnitudes. -/

namespace Scalar

/-- The magnitude of a number is in normal form. -/
theorem magnitude_fits {x : Scalar} {d : Dyadic} (h : x.magnitude? = some d) :
    Fits d.mantissa d.exponent ∧ d.exponent ≤ 104 := by
  have hb := x.biasedExponent_lt
  have hf := x.fractionField_lt
  unfold magnitude? at h
  simp only at h
  split at h
  · cases h
  · split at h
    · cases h
      exact ⟨⟨by simp only; omega, le_rfl, .inr rfl⟩, by simp⟩
    · cases h
      exact ⟨⟨by simp only; omega, by simp only; omega, .inl (by simp only; omega)⟩,
        by simp only; omega⟩

/-- **A number is its magnitude with its sign.** -/
theorem withSign_ofMagnitude {x : Scalar} {d : Dyadic} (h : x.magnitude? = some d) :
    withSign x.isNegative (ofMagnitude d) = x := by
  obtain ⟨hfits, he⟩ := magnitude_fits h
  have hsign : unpacked (withSign x.isNegative (ofMagnitude d)) =
      signedMantissa (signOf x.isNegative) d.mantissa d.exponent := by
    unfold withSign signOf
    cases x.isNegative with
    | false => exact unpacked_ofMagnitude hfits he
    | true =>
      show unpacked (-ofMagnitude d) = _
      rw [unpacked_neg, unpacked_ofMagnitude hfits he]
      rcases d.mantissa.eq_zero_or_pos with hm | hm
      · rw [hm]
        rfl
      · rw [signedMantissa_pos _ _ hm, signedMantissa_pos _ _ hm]
        rfl
  refine unpacked_injective ?_
  rw [hsign, unpacked_eq x]
  unfold magnitude? at h
  unfold ofFields
  simp only at h
  split at h
  · cases h
  · next h255 =>
    rw [if_neg h255]
    split at h
    · next h0 =>
      cases h
      rw [if_pos h0]
    · next h0 =>
      cases h
      rw [if_neg h0]
      rfl

end Scalar

/-! ## §3. Decimals. -/

namespace Decimal

/-- The exact magnitude of a decimal. -/
def magnitude (d : Decimal) : ℚ := d.coefficient * 10 ^ d.exponent

theorem decimal_den_pos (d : Decimal) : 0 < d.den := Nat.pow_pos (by norm_num)

theorem magnitude_eq (d : Decimal) : (d.num / d.den : ℚ) = d.magnitude := by
  unfold magnitude num den
  rw [Rat.ofNat_zpow]
  show ((d.coefficient * 10 ^ d.exponent.toNat : ℕ) : ℚ) / (10 ^ (-d.exponent).toNat : ℕ) = _
  push_cast
  ring

/-- A nonzero decimal lies in the power of ten of its position. -/
theorem magnitude_bounds {d : Decimal} (h : d.coefficient ≠ 0) :
    (10 : ℚ) ^ ((digitCount d.coefficient : ℤ) + d.exponent - 1) ≤ d.magnitude ∧
      d.magnitude < 10 ^ ((digitCount d.coefficient : ℤ) + d.exponent) := by
  have hpow : (0 : ℚ) < 10 ^ d.exponent := by positivity
  have hpos : 0 < digitCount d.coefficient := Nat.length_toDigits_pos
  have hupper : d.coefficient < 10 ^ digitCount d.coefficient :=
    (Nat.length_toDigits_le_iff (by norm_num) hpos).1 le_rfl
  have hlower : 10 ^ (digitCount d.coefficient - 1) ≤ d.coefficient := by
    by_cases hone : digitCount d.coefficient = 1
    · simpa [hone, Nat.one_le_iff_ne_zero] using h
    · by_contra hlt
      have := (Nat.length_toDigits_le_iff (by norm_num : 1 < 10)
        (by omega : 0 < digitCount d.coefficient - 1)).2 (not_le.1 hlt)
      unfold digitCount at *
      omega
  unfold magnitude
  constructor
  · calc (10 : ℚ) ^ ((digitCount d.coefficient : ℤ) + d.exponent - 1)
        = (10 ^ (digitCount d.coefficient - 1) : ℕ) * 10 ^ d.exponent := by
          push_cast
          rw [← zpow_natCast, ← zpow_add₀ (by norm_num)]
          congr 1
          omega
      _ ≤ d.coefficient * 10 ^ d.exponent := by
          gcongr
  · calc (d.coefficient : ℚ) * 10 ^ d.exponent
        < (10 ^ digitCount d.coefficient : ℕ) * 10 ^ d.exponent := by
          gcongr
      _ = 10 ^ ((digitCount d.coefficient : ℤ) + d.exponent) := by
          push_cast
          rw [← zpow_natCast, ← zpow_add₀ (by norm_num)]

/-- Magnitudes of `10^40` and above overflow. -/
theorem round_huge {n d : ℕ} (hd : 0 < d) (h : (10 : ℚ) ^ (40 : ℤ) ≤ n / d) :
    BinaryFormat.single.round n d = none := by
  cases hr : BinaryFormat.single.round n d with
  | none => rfl
  | some r =>
    obtain ⟨hround, -⟩ := BinaryFormat.round_single n hd
    obtain ⟨hfits, he, hrounds⟩ := hround r hr
    -- the greatest number is below 2^128, too far away
    have hlt : (r.mantissa : ℚ) * 2 ^ r.exponent < 2 ^ (24 : ℤ) * 2 ^ (104 : ℤ) := by
      have hm : (r.mantissa : ℚ) < 2 ^ (24 : ℤ) := by exact_mod_cast hfits.mantissa_lt
      have hpow : (2 : ℚ) ^ r.exponent ≤ 2 ^ (104 : ℤ) := zpow_le_zpow_right₀ (by norm_num) he
      calc (r.mantissa : ℚ) * 2 ^ r.exponent < 2 ^ (24 : ℤ) * 2 ^ r.exponent := by gcongr
        _ ≤ 2 ^ (24 : ℤ) * 2 ^ (104 : ℤ) := by gcongr
    have herror := (abs_le.1 hrounds.error_le).1
    have hnonneg : (0 : ℚ) ≤ n / d := by positivity
    rw [abs_of_nonneg hnonneg] at herror
    generalize (n / d : ℚ) = x at h herror
    generalize (r.mantissa : ℚ) * 2 ^ r.exponent = y at hlt herror
    norm_num at h hlt herror
    linarith

/-- Magnitudes below `10^-50` are rounded to zero. -/
theorem round_tiny {n d : ℕ} (hd : 0 < d) (h : (n / d : ℚ) < 10 ^ (-50 : ℤ)) :
    BinaryFormat.single.round n d = some ⟨0, -149⟩ := by
  have hsmall : (10 : ℚ) ^ (-50 : ℤ) < 2 ^ (127 : ℤ) := by norm_num
  obtain ⟨hround, hsome⟩ := BinaryFormat.round_single n hd
  obtain ⟨r, hr⟩ := hsome (lt_trans h hsmall)
  obtain ⟨hfits, -, hrounds⟩ := hround r hr
  have hzero : r.mantissa = 0 := by
    by_contra hne
    -- the least positive number is 2^-149, too far away
    have hge : (1 : ℚ) * 2 ^ (-149 : ℤ) ≤ r.mantissa * 2 ^ r.exponent := by
      have hm : (1 : ℚ) ≤ r.mantissa := by exact_mod_cast Nat.one_le_iff_ne_zero.2 hne
      have hpow : (2 : ℚ) ^ (-149 : ℤ) ≤ 2 ^ r.exponent :=
        zpow_le_zpow_right₀ (by norm_num) hfits.exponent_ge
      gcongr
    have herror := (abs_le.1 hrounds.error_le).2
    have hnonneg : (0 : ℚ) ≤ n / d := by positivity
    rw [abs_of_nonneg hnonneg] at herror
    generalize (n / d : ℚ) = x at h herror
    generalize (r.mantissa : ℚ) * 2 ^ r.exponent = y at hge herror
    norm_num at h hge herror
    linarith
  obtain ⟨m, e⟩ := r
  obtain rfl : m = 0 := hzero
  obtain rfl : e = -149 := hfits.normal.resolve_left (by simp)
  exact hr

/-- **A decimal is read as the rounding of its magnitude**, near and far. -/
theorem toScalar_eq (d : Decimal) : d.toScalar = Scalar.ofRatio d.negative d.num d.den := by
  have hd := decimal_den_pos d
  have hzero : BinaryFormat.single.round 0 1 = some ⟨0, -149⟩ := rfl
  unfold toScalar
  simp only
  by_cases h0 : d.coefficient = 0
  · rw [if_pos h0]
    have hsame : BinaryFormat.single.round 0 1 = BinaryFormat.single.round 0 d.den :=
      BinaryFormat.round_congr (by norm_num) hd (by simp) _
    unfold Scalar.ofRatio num
    rw [h0, Nat.zero_mul, hsame]
  · rw [if_neg h0]
    obtain ⟨hlow, hhigh⟩ := magnitude_bounds h0
    rw [← magnitude_eq] at hlow hhigh
    generalize (digitCount d.coefficient : ℤ) + d.exponent = position at hlow hhigh
    by_cases hhuge : 40 < position
    · rw [if_pos hhuge]
      unfold Scalar.ofRatio
      rw [round_huge hd (le_trans (zpow_le_zpow_right₀ (by norm_num) (by omega)) hlow)]
      rfl
    · rw [if_neg hhuge]
      by_cases htiny : position < -50
      · rw [if_pos htiny]
        unfold Scalar.ofRatio
        rw [hzero,
          round_tiny hd (lt_trans hhigh (zpow_lt_zpow_right₀ (by norm_num) (by omega)))]
      · rw [if_neg htiny]

/-- **A decimal which is rounded to the magnitude of a number**, with its sign, is
    read as that number. -/
theorem toScalar_of_round {d : Decimal} {x : Scalar} {m : Dyadic} (hm : x.magnitude? = some m)
    (hsign : d.negative = x.isNegative) {n k : ℕ} (hk : 0 < k) (hvalue : d.magnitude = n / k)
    (hround : BinaryFormat.single.round n k = some m) : d.toScalar = x := by
  have hsame : BinaryFormat.single.round d.num d.den = some m := by
    rw [← hround]
    exact BinaryFormat.round_congr (decimal_den_pos d) hk (by rw [magnitude_eq, hvalue]) _
  rw [toScalar_eq]
  unfold Scalar.ofRatio
  rw [hsame, hsign]
  exact Scalar.withSign_ofMagnitude hm

end Decimal

end VectorIcon

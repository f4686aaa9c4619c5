/-
  VectorIcon.Proofs.Icon.Rounding
  ────────────────────────────────
  **QUANTIZING IS A ROUNDING.**

  Which of three widths a coordinate takes does not matter for its value: the
  numbers of the short words have clear low bits, which the real of a number
  keeps, so that every coordinate is quantized to its real
  (`quantizeCoordinate_eq_real`).  A real changes the fraction of a number and
  nothing above it, by few units and in order (`keptFraction_mono`).  With the
  order of numbers being that of their bits, quantizing is idempotent, monotone,
  and off by few units in the last place (`quantizeCoordinate_rounding`).
-/
import VectorIcon.Proofs.Icon.Numbers
import VectorIcon.Proofs.Number.Order

namespace VectorIcon

namespace Icon

/-! ## §1. The fraction of a real. -/

theorem keptFraction_of_clear {f : ℕ} (h : f < 0x800000) (hclear : f % 4 = 0) : keptFraction f = f := by
  unfold keptFraction
  split <;> omega

/-- A greater fraction is not rounded to a smaller one, up to the top, where it
    is not rounded up. -/
theorem keptFraction_mono {f f' : ℕ} (h : f ≤ f') (hf : f' < 0x800000) : keptFraction f ≤ keptFraction f' := by
  unfold keptFraction
  split <;> split <;> omega

/-- The two greatest fractions are rounded down, all others to the nearest. -/
theorem keptFraction_near {f : ℕ} (h : f < 0x800000) :
    |(keptFraction f : ℤ) - f| ≤ if 0x7ffffe ≤ f then 3 else 2 := by
  unfold keptFraction
  rw [abs_le]
  split <;> split <;> omega

/-- **A multiple of 1/64 in `[-128, 128)` has clear low bits**: the numerator has
    fourteen bits, the mantissa ten more. -/
theorem fractionField_clear {x : Scalar} (h : IsShortFraction x) : x.fractionField % 4 = 0 := by
  obtain ⟨hfinite, n, hn, hlow, hhigh⟩ := h
  have hvalue := abs_value_eq hfinite
  have hnumerator : |x.value| = n.natAbs / 64 := by
    rw [hn, abs_div, ← Int.cast_abs, Int.abs_eq_natAbs]
    norm_num
  have hsmall : n.natAbs ≤ 8192 := by omega
  rw [hnumerator] at hvalue
  generalize n.natAbs = k at hsmall hvalue
  generalize hm : (if x.biasedExponent = 0 then 0 else 2 ^ 23) + x.fractionField = m at hvalue
  generalize he : ((max x.biasedExponent 1 : ℕ) : ℤ) - 150 = e at hvalue
  have hscaled : (k : ℚ) = m * 2 ^ (e + 6) := by
    rw [zpow_add₀ (by norm_num), ← mul_assoc, ← hvalue]
    norm_num
  -- the unit is far below 1/64: a mantissa without leading bit has the least one
  have hexponent : e + 8 ≤ 0 := by
    by_cases h0 : x.biasedExponent = 0
    · rw [h0] at he
      omega
    · rw [if_neg h0] at hm
      by_contra hlarge
      have hleading : ((2 ^ 23 : ℕ) : ℚ) ≤ m := by
        exact_mod_cast (show 2 ^ 23 ≤ m by omega)
      have hpow : (2 : ℚ) ^ (-1 : ℤ) ≤ 2 ^ (e + 6) := zpow_le_zpow_right₀ (by norm_num) (by omega)
      have hbig : ((2 ^ 23 : ℕ) : ℚ) * 2 ^ (-1 : ℤ) ≤ k := by
        rw [hscaled]
        gcongr
      have hsmallq : (k : ℚ) ≤ 8192 := by exact_mod_cast hsmall
      norm_num at hbig
      linarith
  obtain ⟨j, hj⟩ : ∃ j : ℕ, e + 6 = -((j + 2 : ℕ) : ℤ) := ⟨(-(e + 8)).toNat, by omega⟩
  have hmultiple : m = k * 2 ^ j * 4 := by
    have hcast : (m : ℚ) = k * 2 ^ j * 4 := by
      rw [hscaled, hj, zpow_neg, zpow_natCast, pow_add]
      field_simp
      norm_num
    exact_mod_cast hcast
  split at hm <;> omega

/-- **Every coordinate is quantized to its real**, the short words included. -/
theorem quantizeCoordinate_eq_real (x : Scalar) :
    quantizeCoordinate x = Word.real (Word.realBits x) := by
  have hshort (h : IsShortFraction x) : Word.real (Word.realBits x) = x := by
    apply Scalar.unpacked_injective
    rw [unpacked_real, keptFraction_of_clear x.fractionField_lt (fractionField_clear h), x.unpacked_eq]
  unfold quantizeCoordinate
  rcases ofCoordinate_cases x with ⟨hx, n, hn, hlow, hhigh, h⟩ | ⟨hx, n, hn, hlow, hhigh, h⟩ | h
  · rw [h]
    refine (hshort ⟨hx, n * 64, ?_, by omega, by omega⟩).symm
    rw [hn]
    push_cast
    ring
  · rw [h]
    exact (hshort ⟨hx, n, hn, hlow, hhigh⟩).symm
  · rw [h]

/-! ## §2. The bits of a real. -/

section Bits

variable {x : Scalar} (h : x.isNaN = false)

include h

/-- The bits of a real are those of the number, the fraction aside. -/
theorem toBits_quantizeCoordinate :
    (quantizeCoordinate x).toBits.toNat =
      x.toBits.toNat / 0x800000 * 0x800000 + keptFraction x.fractionField := by
  have hreal := isNaN_real h
  rw [quantizeCoordinate_eq_real, ← realBits_toNat]
  unfold Word.real at hreal ⊢
  rcases Scalar.toBits_ofBits (Word.realBits x &&& 0xfffffffc) with hbits | hbits
  · rw [hbits]
  · -- the other pattern is that of a NaN
    unfold Scalar.isNaN Scalar.biasedExponent Scalar.fractionField at hreal
    rw [hbits] at hreal
    cases hreal

theorem isNegative_quantizeCoordinate : (quantizeCoordinate x).isNegative = x.isNegative := by
  have hkept := keptFraction_lt x.fractionField_lt
  unfold Scalar.isNegative
  rw [toBits_quantizeCoordinate h, decide_eq_decide]
  omega

theorem biasedExponent_quantizeCoordinate :
    (quantizeCoordinate x).biasedExponent = x.biasedExponent := by
  have hkept := keptFraction_lt x.fractionField_lt
  have hbits := toBits_quantizeCoordinate h
  unfold Scalar.biasedExponent
  omega

theorem fractionField_quantizeCoordinate :
    (quantizeCoordinate x).fractionField = keptFraction x.fractionField := by
  have hkept := keptFraction_lt x.fractionField_lt
  have hbits := toBits_quantizeCoordinate h
  unfold Scalar.fractionField at hbits hkept ⊢
  omega

/-- Few units in the last place are changed. -/
theorem bits_near :
    |((quantizeCoordinate x).toBits.toNat : ℤ) - x.toBits.toNat| ≤
      if 0x7ffffe ≤ x.fractionField then 3 else 2 := by
  have hnear := keptFraction_near x.fractionField_lt
  rw [toBits_quantizeCoordinate h]
  have hdiff : ((x.toBits.toNat / 0x800000 * 0x800000 + keptFraction x.fractionField : ℕ) : ℤ) -
      x.toBits.toNat = (keptFraction x.fractionField : ℤ) - x.fractionField := by
    unfold Scalar.fractionField
    omega
  rwa [hdiff]

/-- Infinities have no fraction which could change. -/
theorem quantizeCoordinate_infinite (hinfinite : x.isFinite = false) : quantizeCoordinate x = x := by
  have hexponent : x.biasedExponent = 255 := by
    unfold Scalar.isFinite at hinfinite
    simpa using hinfinite
  have hfraction := Scalar.fractionField_of_not_nan h hexponent
  apply Scalar.unpacked_injective
  rw [quantizeCoordinate_eq_real, unpacked_real, x.unpacked_eq, hfraction]
  rfl

end Bits

/-! ## §3. The order of quantized numbers. -/

/-- A real keeps the order of bits: above the fraction nothing changes. -/
theorem keptBits_mono {e e' f f' : ℕ} (hf : f < 0x800000) (hf' : f' < 0x800000)
    (h : e * 0x800000 + f ≤ e' * 0x800000 + f') :
    e * 0x800000 + keptFraction f ≤ e' * 0x800000 + keptFraction f' := by
  have hkept := keptFraction_lt hf
  rcases Nat.lt_or_ge e e' with he | he
  · omega
  · have hmono := keptFraction_mono (show f ≤ f' by omega) hf'
    omega

/-- **Quantizing is monotone.** -/
theorem quantizeCoordinate_mono {v w : Scalar} (h : v ≤ w) :
    quantizeCoordinate v ≤ quantizeCoordinate w := by
  obtain ⟨hv, hw⟩ := Scalar.not_nan_of_le h
  have hfv := v.fractionField_lt
  have hfw := w.fractionField_lt
  rw [Scalar.le_iff_rank hv hw] at h
  rw [Scalar.le_iff_rank (isNaN_quantizeCoordinate hv) (isNaN_quantizeCoordinate hw)]
  unfold Scalar.rank at h ⊢
  rw [isNegative_quantizeCoordinate hv, isNegative_quantizeCoordinate hw,
    biasedExponent_quantizeCoordinate hv, biasedExponent_quantizeCoordinate hw,
    fractionField_quantizeCoordinate hv, fractionField_quantizeCoordinate hw]
  generalize v.isNegative = negative at h ⊢
  generalize w.isNegative = negative' at h ⊢
  generalize v.biasedExponent = e at h ⊢
  generalize w.biasedExponent = e' at h ⊢
  generalize v.fractionField = f at h hfv ⊢
  generalize w.fractionField = f' at h hfw ⊢
  -- of two negative numbers the bits are in the other order, and zeros have no bits
  cases negative with
  | false =>
    cases negative' with
    | false =>
      have hle : (e : ℤ) * 0x800000 + f ≤ e' * 0x800000 + f' := h
      have hkept := keptBits_mono hfv hfw (show e * 0x800000 + f ≤ e' * 0x800000 + f' by omega)
      show (e : ℤ) * 0x800000 + keptFraction f ≤ e' * 0x800000 + keptFraction f'
      omega
    | true =>
      have hle : (e : ℤ) * 0x800000 + f ≤ -(e' * 0x800000 + f') := h
      obtain ⟨rfl, rfl⟩ : f = 0 ∧ f' = 0 := by omega
      exact hle
  | true =>
    cases negative' with
    | false =>
      show -((e : ℤ) * 0x800000 + keptFraction f) ≤ e' * 0x800000 + keptFraction f'
      omega
    | true =>
      have hle : -((e : ℤ) * 0x800000 + f) ≤ -(e' * 0x800000 + f') := h
      have hkept := keptBits_mono hfw hfv (show e' * 0x800000 + f' ≤ e * 0x800000 + f by omega)
      show -((e : ℤ) * 0x800000 + keptFraction f) ≤ -(e' * 0x800000 + keptFraction f')
      omega

/-! ## §4. Quantizing as a rounding. -/

/-- **Quantizing is a well-behaved rounding.**  It is idempotent and monotone; it
    keeps sign and exponent field, and infinities; the bits change by at most two
    units, by three only for the two greatest fractions, so that a normal number
    changes by at most four units of 2^-23, relative to itself. -/
theorem quantizeCoordinate_rounding :
    (∀ v : Scalar, quantizeCoordinate (quantizeCoordinate v) = quantizeCoordinate v) ∧
    (∀ v w : Scalar, v ≤ w → quantizeCoordinate v ≤ quantizeCoordinate w) ∧
    ∀ v : Scalar, v.isNaN = false →
      (quantizeCoordinate (quantizeCoordinate v) == quantizeCoordinate v) = true ∧
      (quantizeCoordinate v).isNegative = v.isNegative ∧
      (quantizeCoordinate v).biasedExponent = v.biasedExponent ∧
      (quantizeCoordinate v).isFinite = v.isFinite ∧
      (v.isFinite = false → quantizeCoordinate v = v) ∧
      |((quantizeCoordinate v).toBits.toNat : ℤ) - v.toBits.toNat| ≤
        (if 0x7ffffe ≤ v.fractionField then 3 else 2) ∧
      (v.isFinite = true → v.biasedExponent ≠ 0 →
        |(quantizeCoordinate v).value - v.value| ≤ 4 * 2 ^ (-23 : ℤ) * |v.value|) := by
  refine ⟨quantizeCoordinate_idempotent, fun v w => quantizeCoordinate_mono, fun v h => ?_⟩
  refine ⟨?_, isNegative_quantizeCoordinate h, biasedExponent_quantizeCoordinate h, ?_,
    quantizeCoordinate_infinite h, bits_near h, fun hfinite hnormal => ?_⟩
  · rw [quantizeCoordinate_idempotent]
    exact beq_of_agrees (.refl _) (isNaN_quantizeCoordinate h)
  · unfold Scalar.isFinite
    rw [biasedExponent_quantizeCoordinate h]
  · rw [quantizeCoordinate_eq_real]
    exact real_error_units hfinite hnormal

/-- Below 64 the fraction is at its top, and 64 takes another width. -/
theorem quantizeCoordinate_rounding_below64 :
    ((63.999996 : Scalar) ≤ 64.0 ∧
      quantizeCoordinate 63.999996 ≤ quantizeCoordinate 64.0) ∧
    (Scalar.isNaN 63.999996 = false ∧ Scalar.isFinite 63.999996 = true ∧
      Scalar.biasedExponent 63.999996 ≠ 0 ∧
      |((quantizeCoordinate 63.999996).toBits.toNat : ℤ) - (63.999996 : Scalar).toBits.toNat| ≤ 3 ∧
      |(quantizeCoordinate 63.999996).value - (63.999996 : Scalar).value| ≤
        4 * 2 ^ (-23 : ℤ) * |(63.999996 : Scalar).value|) := by
  have hle : (63.999996 : Scalar) ≤ 64.0 := by decide +kernel
  have hnan : Scalar.isNaN 63.999996 = false := by decide +kernel
  have hfinite : Scalar.isFinite 63.999996 = true := by decide +kernel
  have hnormal : Scalar.biasedExponent 63.999996 ≠ 0 := by decide +kernel
  obtain ⟨-, hmono, hfields⟩ := quantizeCoordinate_rounding
  obtain ⟨-, -, -, -, -, hbits, herror⟩ := hfields 63.999996 hnan
  refine ⟨⟨hle, hmono _ _ hle⟩, hnan, hfinite, hnormal, ?_, herror hfinite hnormal⟩
  exact hbits.trans (by decide +kernel)

end Icon

end VectorIcon

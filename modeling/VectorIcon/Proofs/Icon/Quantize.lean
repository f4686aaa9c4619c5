/-
  VectorIcon.Proofs.Icon.Quantize
  ────────────────────────────────
  **WHAT IS READ FOR A COORDINATE.**

  The reader computes a coordinate from a word, the writer predicts it from the
  number it wrote.  The two agree (`recoverCoordinate_agrees`).  The prediction
  is the number itself on the grid of the short words (`quantizeCoordinate_grid`)
  and off by at most the 2^-22th part otherwise (`quantizeCoordinate_error`).
-/
import VectorIcon.Proofs.Icon.Wire
import VectorIcon.Proofs.Number.Agreement
import VectorIcon.Proofs.Number.Conversion

namespace VectorIcon

open Float.Model Float.Model.UnpackedFloat

/-! ## §1. Exact operations. -/

namespace Scalar

theorem finite_zero : isFinite 0.0 = true ∧ (0.0 : Scalar).value = 0 := by
  rw [isFinite_eq, value_eq, show (0.0 : Scalar).unpacked = .zero .positive from rfl]
  exact ⟨rfl, rfl⟩

theorem finite_24 : isFinite 24.0 = true ∧ (24.0 : Scalar).value = 24 :=
  literal .positive 0xc00000 (-19) ⟨by norm_num, rfl⟩ (by norm_num [Sign.apply])

theorem finite_64 : isFinite 64.0 = true ∧ (64.0 : Scalar).value = 64 :=
  literal .positive 0x800000 (-17) ⟨by norm_num, rfl⟩ (by norm_num [Sign.apply])

theorem finite_1 : isFinite 1.0 = true ∧ (1.0 : Scalar).value = 1 :=
  literal .positive 0x800000 (-23) ⟨by norm_num, rfl⟩ (by norm_num [Sign.apply])

theorem finite_2 : isFinite 2.0 = true ∧ (2.0 : Scalar).value = 2 :=
  literal .positive 0x800000 (-22) ⟨by norm_num, rfl⟩ (by norm_num [Sign.apply])

theorem finite_128 : isFinite 128.0 = true ∧ (128.0 : Scalar).value = 128 :=
  literal .positive 0x800000 (-16) ⟨by norm_num, rfl⟩ (by norm_num [Sign.apply])

theorem finite_8192 : isFinite 8192.0 = true ∧ (8192.0 : Scalar).value = 8192 :=
  literal .positive 0x800000 (-10) ⟨by norm_num, rfl⟩ (by norm_num [Sign.apply])

variable {a b : Scalar}

theorem finite_neg {x : Scalar} {v : ℚ} (h : isFinite x = true ∧ x.value = v) :
    isFinite (-x) = true ∧ (-x).value = -v := by
  rw [isFinite_neg, value_neg, h.2]
  exact ⟨h.1, rfl⟩

/-- The range test compares values. -/
theorem inRange_iff {lo hi x : Scalar} (hlo : isFinite lo = true) (hhi : isFinite hi = true)
    (hx : isFinite x = true) : inRange lo hi x = true ↔ lo.value ≤ x.value ∧ x.value < hi.value := by
  unfold inRange
  rw [Bool.and_eq_true, decide_eq_true_eq, decide_eq_true_eq, le_iff hlo hx, lt_iff hx hhi]

/-- What is in a range between finite numbers is finite. -/
theorem isFinite_of_inRange {lo hi x : Scalar} (hlo : isFinite lo = true) (hhi : isFinite hi = true)
    (h : inRange lo hi x = true) : isFinite x = true := by
  unfold inRange at h
  rw [Bool.and_eq_true, decide_eq_true_eq, decide_eq_true_eq] at h
  exact isFinite_of_between hlo hhi h.1 (Scalar.le_of_lt h.2)

/-- A short sum is exact. -/
theorem add_exact (ha : isFinite a = true) (hb : isFinite b = true) (hshort : Short (a.value + b.value))
    (hbound : |a.value + b.value| < 2 ^ 127) :
    isFinite (a + b) = true ∧ (a + b).value = a.value + b.value :=
  (add_approximates ha hb).exact_of_short hshort hbound

/-- A short difference is exact. -/
theorem sub_exact (ha : isFinite a = true) (hb : isFinite b = true) (hshort : Short (a.value - b.value))
    (hbound : |a.value - b.value| < 2 ^ 127) :
    isFinite (a - b) = true ∧ (a - b).value = a.value - b.value :=
  (sub_approximates ha hb).exact_of_short hshort hbound

/-- A short product is exact. -/
theorem mul_exact (ha : isFinite a = true) (hb : isFinite b = true) (hshort : Short (a.value * b.value))
    (hbound : |a.value * b.value| < 2 ^ 127) :
    isFinite (a * b) = true ∧ (a * b).value = a.value * b.value :=
  (mul_approximates ha hb).exact_of_short hshort hbound

/-- A short quotient is exact. -/
theorem div_exact (ha : isFinite a = true) (hb : isFinite b = true) (hne : b.value ≠ 0)
    (hshort : Short (a.value / b.value)) (hbound : |a.value / b.value| < 2 ^ 127) :
    isFinite (a / b) = true ∧ (a / b).value = a.value / b.value :=
  (div_approximates ha hb hne).exact_of_short hshort hbound

/-- Sixty-four times a number, as far as it stays finite. -/
theorem mul_64 (h : isFinite (a * 64.0) = true) : isFinite a = true ∧ (a * 64.0).value = a.value * 64 := by
  obtain ⟨h64, hv64⟩ := finite_64
  obtain ⟨ha, -⟩ := isFinite_of_mul h
  refine ⟨ha, ?_⟩
  have happrox := mul_approximates ha h64
  rw [hv64] at happrox
  refine (happrox.rounds h).exact ?_
  obtain ⟨k, f, hk, hf, hx⟩ := a.value_short
  refine ⟨k, f + 6, hk, by omega, ?_⟩
  rw [hx, zpow_add₀ (by norm_num)]
  norm_num
  ring

/-- A multiple of 1/64, scaled to an integer. -/
theorem mul_64_exact (ha : isFinite a = true) {n : ℤ} (hn : a.value = n / 64) (hsmall : |n| < 2 ^ 24) :
    isFinite (a * 64.0) = true ∧ (a * 64.0).value = n := by
  obtain ⟨h64, hv64⟩ := finite_64
  have hproduct : a.value * (64.0 : Scalar).value = n := by
    rw [hn, hv64]
    ring
  have hbound : |(n : ℚ)| < 2 ^ 24 := by exact_mod_cast hsmall
  have h := mul_exact ha h64
  rw [hproduct] at h
  exact h (Short.ofInt hsmall) (hbound.trans (by norm_num))

/-- An integer which was raised to a natural and is lowered again. -/
theorem ofInt_add_sub {c : Scalar} {k n : ℤ} (hc : isFinite c = true ∧ c.value = k)
    (hraised : |n + k| < 2 ^ 24) (hn : |n| < 2 ^ 24) :
    isFinite (ofInt (n + k) - c) = true ∧ (ofInt (n + k) - c).value = n := by
  obtain ⟨hi, hvi⟩ := ofInt_exact hraised
  have hdiff : (ofInt (n + k)).value - c.value = n := by
    rw [hvi, hc.2]
    push_cast
    ring
  have hbound : |(n : ℚ)| < 2 ^ 24 := by exact_mod_cast hn
  have h := sub_exact hi hc.1
  rw [hdiff] at h
  exact h (Short.ofInt hn) (hbound.trans (by norm_num))

/-- Doubling is exact as long as it is finite. -/
theorem double_exact {x : Scalar} (h : isFinite (2.0 * x) = true) :
    isFinite x = true ∧ (2.0 * x : Scalar).value = 2 * x.value := by
  obtain ⟨h2, hv2⟩ := finite_2
  obtain ⟨-, hx⟩ := isFinite_of_mul h
  have hrounds := (mul_approximates h2 hx).rounds h
  rw [hv2] at hrounds
  exact ⟨hx, hrounds.exact x.value_short.double⟩

theorem isFinite_double {x : Scalar} (hx : isFinite x = true) (hsmall : |x.value| < 2 ^ 126) :
    isFinite (2.0 * x) = true := by
  obtain ⟨h2, hv2⟩ := finite_2
  refine (mul_approximates h2 hx).finite ?_
  rw [hv2, abs_mul, abs_two]
  linarith

end Scalar

namespace Icon

/-! ## §2. The words of coordinates. -/

/-- Short words, by the number which is left without the width bits. -/
theorem payload_one {k : ℕ} (h : k < 128) : (Word.one (UInt8.ofNat (k * 2))).payload.toNat = k := by
  rw [toNat_payload_one, UInt8.toNat_ofNat']
  omega

theorem payload_two {k : ℕ} (h : k < 16384) :
    (Word.two (UInt16.ofNat (k * 4 + 1))).payload.toNat = k := by
  rw [toNat_payload_two, UInt16.toNat_ofNat']
  omega

/-- An integer of `[-64, 64)`. -/
def IsShortInteger (x : Scalar) : Prop :=
  x.isFinite = true ∧ ∃ n : ℤ, x.value = n ∧ -64 ≤ n ∧ n < 64

/-- A multiple of 1/64 in `[-128, 128)`. -/
def IsShortFraction (x : Scalar) : Prop :=
  x.isFinite = true ∧ ∃ n : ℤ, x.value = n / 64 ∧ -8192 ≤ n ∧ n < 8192

/-- The test for one byte. -/
theorem isShortInteger_iff (x : Scalar) :
    (x.isIntegral && Scalar.inRange (-64.0) 64.0 x) = true ↔ IsShortInteger x := by
  obtain ⟨h64, hv64⟩ := Scalar.finite_64
  have hm64 := Scalar.finite_neg Scalar.finite_64
  rw [Bool.and_eq_true, Scalar.isIntegral_iff]
  constructor
  · rintro ⟨⟨hfinite, n, hn⟩, hrange⟩
    rw [Scalar.inRange_iff hm64.1 h64 hfinite, hm64.2, hv64, hn] at hrange
    exact ⟨hfinite, n, hn, by exact_mod_cast hrange.1, by exact_mod_cast hrange.2⟩
  · rintro ⟨hfinite, n, hn, hlow, hhigh⟩
    refine ⟨⟨hfinite, n, hn⟩, ?_⟩
    rw [Scalar.inRange_iff hm64.1 h64 hfinite, hm64.2, hv64, hn]
    exact ⟨by exact_mod_cast hlow, by exact_mod_cast hhigh⟩

/-- The test for two bytes; scaling is exact on either side of it. -/
theorem isShortFraction_iff (x : Scalar) :
    ((x * 64.0).isIntegral && Scalar.inRange (-8192.0) 8192.0 (x * 64.0)) = true ↔
      IsShortFraction x := by
  obtain ⟨h8192, hv8192⟩ := Scalar.finite_8192
  have hm8192 := Scalar.finite_neg Scalar.finite_8192
  rw [Bool.and_eq_true, Scalar.isIntegral_iff]
  constructor
  · rintro ⟨⟨hscaled, n, hn⟩, hrange⟩
    rw [Scalar.inRange_iff hm8192.1 h8192 hscaled, hm8192.2, hv8192, hn] at hrange
    obtain ⟨hfinite, hvalue⟩ := Scalar.mul_64 hscaled
    refine ⟨hfinite, n, ?_, by exact_mod_cast hrange.1, by exact_mod_cast hrange.2⟩
    rw [← hn, hvalue]
    ring
  · rintro ⟨hfinite, n, hn, hlow, hhigh⟩
    obtain ⟨hscaled, hvalue⟩ := Scalar.mul_64_exact hfinite hn (by rw [abs_lt]; omega)
    refine ⟨⟨hscaled, n, hvalue⟩, ?_⟩
    rw [Scalar.inRange_iff hm8192.1 h8192 hscaled, hm8192.2, hv8192, hvalue]
    exact ⟨by exact_mod_cast hlow, by exact_mod_cast hhigh⟩

/-- **The word of a coordinate**: an integer, a multiple of 1/64 or a real. -/
theorem ofCoordinate_cases (x : Scalar) :
    (x.isFinite = true ∧ ∃ n : ℤ, x.value = n ∧ -64 ≤ n ∧ n < 64 ∧
      Word.ofCoordinate x = .one (UInt8.ofNat ((n + 64).toNat * 2))) ∨
    (x.isFinite = true ∧ ∃ n : ℤ, x.value = n / 64 ∧ -8192 ≤ n ∧ n < 8192 ∧
      Word.ofCoordinate x = .two (UInt16.ofNat ((n + 8192).toNat * 4 + 1))) ∨
    Word.ofCoordinate x = .four (Word.realBits x) := by
  unfold Word.ofCoordinate
  simp only
  split
  · next hone =>
    obtain ⟨hfinite, n, hn, hlow, hhigh⟩ := (isShortInteger_iff x).1 hone
    exact .inl ⟨hfinite, n, hn, hlow, hhigh, by rw [Scalar.truncate_eq hfinite hn]⟩
  · split
    · next htwo =>
      obtain ⟨hfinite, n, hn, hlow, hhigh⟩ := (isShortFraction_iff x).1 htwo
      obtain ⟨hscaled, hvalue⟩ := Scalar.mul_64_exact hfinite hn (by rw [abs_lt]; omega)
      exact .inr (.inl ⟨hfinite, n, hn, hlow, hhigh, by rw [Scalar.truncate_eq hscaled hvalue]⟩)
    · exact .inr (.inr rfl)

/-- **Multiples of 1/64 in `[-128, 128)` are kept.** -/
theorem quantizeCoordinate_grid {x : Scalar} (hfinite : x.isFinite = true) {n : ℤ}
    (hn : x.value = n / 64) (hlow : -8192 ≤ n) (hhigh : n < 8192) : quantizeCoordinate x = x := by
  have htwo := (isShortFraction_iff x).2 ⟨hfinite, n, hn, hlow, hhigh⟩
  unfold quantizeCoordinate Word.ofCoordinate
  simp only
  rw [if_pos htwo]
  split
  · next h =>
    split at h <;> cases h
  · rfl

/-! ## §3. Reals. -/

/-- The mantissa bits which a real keeps of a fraction field. -/
def keptFraction (f : ℕ) : ℕ := (if f < 0x7ffffe then f + 2 else f) / 4 * 4

theorem keptFraction_lt {f : ℕ} (h : f < 0x800000) : keptFraction f < 0x800000 := by
  unfold keptFraction
  split <;> omega

/-- **The bits of a real** are those of the number, the fraction field aside. -/
theorem realBits_toNat (x : Scalar) :
    (Word.realBits x &&& 0xfffffffc).toNat =
      x.toBits.toNat / 0x800000 * 0x800000 + keptFraction x.fractionField := by
  have hb := x.toBits.toNat_lt
  have hf := x.fractionField_lt
  have hhigh : (x.toBits &&& 0xff800000).toNat = x.toBits.toNat / 0x800000 * 0x800000 := by
    rw [UInt32.toNat_and]
    exact Nat.and_shiftLeft_eq (k := 23) (m := 9) hb
  have hlow : (x.toBits &&& 0x007fffff).toNat = x.fractionField := by
    rw [UInt32.toNat_and]
    exact Nat.and_two_pow_sub_one_eq_mod x.toBits.toNat 23
  have hmantissa : (if x.toBits &&& 0x007fffff < 0x007ffffe then (x.toBits &&& 0x007fffff) + 2
      else x.toBits &&& 0x007fffff).toNat =
      if x.fractionField < 0x7ffffe then x.fractionField + 2 else x.fractionField := by
    by_cases h : x.fractionField < 0x7ffffe
    · rw [if_pos (by rw [UInt32.lt_iff_toNat_lt, hlow]; exact h), if_pos h, UInt32.toNat_add, hlow]
      show (x.fractionField + 2) % 2 ^ 32 = _
      omega
    · rw [if_neg (by rw [UInt32.lt_iff_toNat_lt, hlow]; exact h), if_neg h, hlow]
  unfold Word.realBits
  simp only
  rw [UInt32.toNat_and, UInt32.toNat_or, UInt32.toNat_or, hhigh, hmantissa]
  unfold keptFraction
  generalize hkept : (if x.fractionField < 0x7ffffe then x.fractionField + 2 else x.fractionField) = f
  have hf' : f < 2 ^ 23 := by
    rw [← hkept]
    split <;> omega
  -- the fraction field lies below the other two, so joining is adding
  have hjoin : x.toBits.toNat / 0x800000 * 0x800000 ||| f = x.toBits.toNat / 0x800000 * 0x800000 + f :=
    Nat.or_eq_add_of_dvd (k := 23) (by omega) hf'
  have hlt : x.toBits.toNat / 0x800000 * 0x800000 + f ||| 3 < 2 ^ 32 :=
    Nat.or_lt_two_pow (by omega) (by norm_num)
  rw [hjoin]
  show (x.toBits.toNat / 0x800000 * 0x800000 + f ||| 3) &&& (2 ^ 30 - 1) <<< 2 = _
  rw [Nat.and_shiftLeft_eq (k := 2) (m := 30) hlt, Nat.or_three_div_four]
  omega

/-- A real keeps sign and exponent of the number. -/
theorem unpacked_real (x : Scalar) :
    Scalar.unpacked (Word.real (Word.realBits x)) =
      ofFields (signOf x.isNegative) x.biasedExponent (keptFraction x.fractionField) := by
  have hb := x.toBits.toNat_lt
  have hkept := keptFraction_lt x.fractionField_lt
  have hbits := realBits_toNat x
  unfold Word.real
  rw [Scalar.unpacked_ofBits, hbits]
  have hsign : decide (0x80000000 ≤ x.toBits.toNat / 0x800000 * 0x800000 + keptFraction x.fractionField) =
      x.isNegative := by
    unfold Scalar.isNegative
    rw [decide_eq_decide]
    omega
  have hexponent : (x.toBits.toNat / 0x800000 * 0x800000 + keptFraction x.fractionField) / 0x800000 % 256 =
      x.biasedExponent := by
    unfold Scalar.biasedExponent
    omega
  have hfraction : (x.toBits.toNat / 0x800000 * 0x800000 + keptFraction x.fractionField) % 0x800000 =
      keptFraction x.fractionField := by
    omega
  rw [hsign, hexponent, hfraction]

theorem keptFraction_kept {f : ℕ} (h : f < 0x800000) : keptFraction (keptFraction f) = keptFraction f := by
  unfold keptFraction
  split <;> split <;> omega

/-- A real is its own real: the bits which are cleared are clear. -/
theorem real_realBits_real (x : Scalar) :
    Word.real (Word.realBits (Word.real (Word.realBits x))) = Word.real (Word.realBits x) := by
  generalize hy : Word.real (Word.realBits x) = y
  -- a NaN has one pattern of bits, and its two lowest are clear as well
  have hkept : keptFraction y.fractionField = y.fractionField := by
    have hkeptx := keptFraction_lt x.fractionField_lt
    have hbits := realBits_toNat x
    unfold Word.real at hy
    unfold Scalar.fractionField
    rw [← hy]
    rcases Scalar.toBits_ofBits (Word.realBits x &&& 0xfffffffc) with h | h
    · have hfraction : (Word.realBits x &&& 0xfffffffc).toNat % 0x800000 =
          keptFraction x.fractionField := by
        rw [hbits]
        omega
      rw [h, hfraction, keptFraction_kept x.fractionField_lt]
    · rw [h]
      rfl
  apply Scalar.unpacked_injective
  rw [unpacked_real, hkept, y.unpacked_eq]

/-- What a coordinate is quantized to: itself, unless it takes a real. -/
theorem quantizeCoordinate_cases (x : Scalar) :
    quantizeCoordinate x = x ∨ quantizeCoordinate x = Word.real (Word.realBits x) := by
  unfold quantizeCoordinate
  rcases ofCoordinate_cases x with ⟨-, n, -, -, -, h⟩ | ⟨-, n, -, -, -, h⟩ | h
  · rw [h]
    exact .inl rfl
  · rw [h]
    exact .inl rfl
  · rw [h]
    exact .inr rfl

/-- Quantizing again changes nothing. -/
theorem quantizeCoordinate_idempotent (x : Scalar) :
    quantizeCoordinate (quantizeCoordinate x) = quantizeCoordinate x := by
  rcases quantizeCoordinate_cases x with h | h
  · rw [h, h]
  · rw [h]
    rcases quantizeCoordinate_cases (Word.real (Word.realBits x)) with h' | h'
    · exact h'
    · rw [h']
      exact real_realBits_real x

/-- A word of one byte means an integer which was raised by 64. -/
theorem lowered_one {n : ℤ} (hn : |n| < 2 ^ 16) :
    Scalar.isFinite (Scalar.ofInt (n + 64) - 64.0) = true ∧
      Scalar.value (Scalar.ofInt (n + 64) - 64.0) = n := by
  rw [abs_lt] at hn
  exact Scalar.ofInt_add_sub (k := 64) Scalar.finite_64 (by rw [abs_lt]; omega) (by rw [abs_lt]; omega)

/-- A word of two bytes means a multiple of 1/64 whose numerator was raised by
    8192. -/
theorem lowered_two {n : ℤ} (hn : |n| < 2 ^ 16) :
    Scalar.isFinite ((Scalar.ofInt (n + 8192) - 8192.0) / 64.0) = true ∧
      Scalar.value ((Scalar.ofInt (n + 8192) - 8192.0) / 64.0) = n / 64 := by
  have hsmall : |n| < 2 ^ 24 := hn.trans (by norm_num)
  rw [abs_lt] at hn
  obtain ⟨hf, hv⟩ := Scalar.ofInt_add_sub (k := 8192) Scalar.finite_8192
    (by rw [abs_lt]; omega : |n + 8192| < 2 ^ 24) hsmall
  obtain ⟨h64, hv64⟩ := Scalar.finite_64
  have hquotient : (Scalar.ofInt (n + 8192) - 8192.0).value / (64.0 : Scalar).value = n / 64 := by
    rw [hv, hv64]
  have hshort : Short ((n : ℚ) / 64) := by
    refine ⟨n, -6, hsmall, by norm_num, ?_⟩
    norm_num
    ring
  have hbound : |(n : ℚ) / 64| < 2 ^ 127 := by
    have hq : |(n : ℚ)| < 2 ^ 24 := by exact_mod_cast hsmall
    rw [abs_div]
    norm_num
    linarith
  obtain ⟨hf', hv'⟩ := Scalar.div_exact hf h64 (by rw [hv64]; norm_num)
    (by rw [hquotient]; exact hshort) (by rw [hquotient]; exact hbound)
  exact ⟨hf', hv'.trans hquotient⟩

/-- **The reader finds what the writer predicts.** -/
theorem recoverCoordinate_agrees (x : Scalar) : (recoverCoordinate x).Agrees (quantizeCoordinate x) := by
  unfold recoverCoordinate quantizeCoordinate
  rcases ofCoordinate_cases x with ⟨hx, n, hn, hlow, hhigh, h⟩ | ⟨hx, n, hn, hlow, hhigh, h⟩ | h
  · have hpayload : ((n + 64).toNat : ℤ) = n + 64 := Int.toNat_of_nonneg (by omega)
    obtain ⟨hf, hv⟩ := lowered_one (n := n) (by rw [abs_lt]; omega)
    rw [h]
    show (Scalar.ofInt (Word.payload _).toNat - 64.0).Agrees x
    rw [payload_one (by omega), hpayload]
    exact Scalar.agrees_of_value hf hx (hv.trans hn.symm)
  · have hpayload : ((n + 8192).toNat : ℤ) = n + 8192 := Int.toNat_of_nonneg (by omega)
    obtain ⟨hf, hv⟩ := lowered_two (n := n) (by rw [abs_lt]; omega)
    rw [h]
    show ((Scalar.ofInt (Word.payload _).toNat - 8192.0) / 64.0).Agrees x
    rw [payload_two (by omega), hpayload]
    exact Scalar.agrees_of_value hf hx (hv.trans hn.symm)
  · rw [h]
    exact Scalar.Agrees.refl _

/-- What was quantized before it was written is read back. -/
theorem recoverCoordinate_quantized (x : Scalar) :
    (recoverCoordinate (quantizeCoordinate x)).Agrees (quantizeCoordinate x) := by
  have h := recoverCoordinate_agrees (quantizeCoordinate x)
  rwa [quantizeCoordinate_idempotent] at h

/-! ## §4. The error of a real. -/

/-- Fields below the last exponent are a mantissa, with a leading bit unless the
    exponent field is zero. -/
theorem ofFields_finite (s : Sign) {e : ℕ} (he : e ≠ 255) (f : ℕ) :
    ofFields s e f = signedMantissa s ((if e = 0 then 0 else 2 ^ 23) + f) ((max e 1 : ℕ) - 150) := by
  unfold ofFields
  rw [if_neg he]
  by_cases h : e = 0
  · rw [if_pos h, if_pos h, h, zero_add]
    rfl
  · rw [if_neg h, if_neg h, max_eq_left (by omega)]

/-- The bits which a real does not keep are few against the mantissa. -/
theorem keptFraction_error {f : ℕ} (h : f < 0x800000) :
    |(keptFraction f : ℤ) - f| * 0x400000 ≤ 0x800000 + f ∧ |(keptFraction f : ℤ) - f| ≤ 3 := by
  unfold keptFraction
  rw [abs_eq_max_neg]
  split <;> omega

theorem abs_signFactor (s : Sign) : |signFactor s| = 1 := by
  cases s with
  | negative => show |(-1 : ℚ)| = 1; norm_num
  | positive => show |(1 : ℚ)| = 1; norm_num

/-- The magnitude of a number by its fields. -/
theorem abs_value_eq {x : Scalar} (hx : x.isFinite = true) :
    |x.value| = ((if x.biasedExponent = 0 then 0 else 2 ^ 23) + x.fractionField : ℕ) *
      2 ^ (((max x.biasedExponent 1 : ℕ) : ℤ) - 150) := by
  have hpow : (0 : ℚ) < 2 ^ (((max x.biasedExponent 1 : ℕ) : ℤ) - 150) := by positivity
  rw [Scalar.value_eq, x.unpacked_eq, ofFields_finite _ (bne_iff_ne.1 hx), valueOf_signedMantissa,
    apply_cast, abs_mul, abs_mul, abs_signFactor, one_mul, abs_of_pos hpow, Int.cast_natCast, Nat.abs_cast]

/-- A real differs from the number by the bits which are not kept of the fraction. -/
theorem real_difference {x : Scalar} (hx : x.isFinite = true) :
    Scalar.isFinite (Word.real (Word.realBits x)) = true ∧
      |Scalar.value (Word.real (Word.realBits x)) - x.value| =
        (|(keptFraction x.fractionField : ℤ) - x.fractionField| : ℤ) *
          2 ^ (((max x.biasedExponent 1 : ℕ) : ℤ) - 150) := by
  have h255 : x.biasedExponent ≠ 255 := bne_iff_ne.1 hx
  have hunpacked := x.unpacked_eq
  have hreal := unpacked_real x
  rw [ofFields_finite _ h255] at hunpacked hreal
  rw [Scalar.isFinite_eq, Scalar.value_eq, Scalar.value_eq, hunpacked, hreal]
  refine ⟨isFinite_signedMantissa _ _ _, ?_⟩
  rw [valueOf_signedMantissa, valueOf_signedMantissa, apply_cast, apply_cast]
  generalize signOf x.isNegative = s
  generalize x.fractionField = f
  generalize (if x.biasedExponent = 0 then 0 else 2 ^ 23) = leading
  generalize ((max x.biasedExponent 1 : ℕ) : ℤ) - 150 = e
  have hpow : (0 : ℚ) < 2 ^ e := by positivity
  -- both mantissas have the same leading bit
  have hdiff : signFactor s * ((leading + keptFraction f : ℕ) : ℤ) * 2 ^ e -
      signFactor s * ((leading + f : ℕ) : ℤ) * 2 ^ e =
      signFactor s * (((keptFraction f : ℤ) - f : ℤ) : ℚ) * 2 ^ e := by
    push_cast
    ring
  rw [hdiff, abs_mul, abs_mul, abs_signFactor, one_mul, abs_of_pos hpow, ← Int.cast_abs]

/-- **A real of a normal number is off by at most the 2^-22th part.** -/
theorem real_error_normal {x : Scalar} (hx : x.isFinite = true) (hnormal : x.biasedExponent ≠ 0) :
    |Scalar.value (Word.real (Word.realBits x)) - x.value| ≤ |x.value| / 2 ^ 22 := by
  obtain ⟨hrelative, -⟩ := keptFraction_error x.fractionField_lt
  rw [(real_difference hx).2, abs_value_eq hx, if_neg hnormal]
  have hrelativeq : ((|(keptFraction x.fractionField : ℤ) - x.fractionField| : ℤ) : ℚ) * 0x400000 ≤
      (0x800000 + x.fractionField : ℕ) := by
    exact_mod_cast hrelative
  have hpow : (0 : ℚ) < 2 ^ (((max x.biasedExponent 1 : ℕ) : ℤ) - 150) := by positivity
  generalize (2 : ℚ) ^ (((max x.biasedExponent 1 : ℕ) : ℤ) - 150) = p at hpow
  generalize ((|(keptFraction x.fractionField : ℤ) - x.fractionField| : ℤ) : ℚ) = k at hrelativeq
  have hk : k ≤ (0x800000 + x.fractionField : ℕ) / 2 ^ 22 := by
    rw [le_div_iff₀ (by norm_num)]
    norm_num at hrelativeq ⊢
    linarith
  calc k * p ≤ (0x800000 + x.fractionField : ℕ) / 2 ^ 22 * p := by gcongr
    _ = (0x800000 + x.fractionField : ℕ) * p / 2 ^ 22 := by ring

/-- The same in units of 2^-23, the spacing at one. -/
theorem real_error_units {x : Scalar} (hx : x.isFinite = true) (hnormal : x.biasedExponent ≠ 0) :
    |Scalar.value (Word.real (Word.realBits x)) - x.value| ≤ 4 * 2 ^ (-23 : ℤ) * |x.value| := by
  have herror := real_error_normal hx hnormal
  have hnonneg : 0 ≤ |x.value| := abs_nonneg _
  norm_num at herror ⊢
  linarith

/-- **A real is off by at most the 2^-22th part**, near zero by at most three
    units of the least spacing. -/
theorem real_error {x : Scalar} (hx : x.isFinite = true) :
    Scalar.isFinite (Word.real (Word.realBits x)) = true ∧
      |Scalar.value (Word.real (Word.realBits x)) - x.value| ≤ |x.value| / 2 ^ 22 + 2 ^ (-147 : ℤ) := by
  obtain ⟨hfinite, hdifference⟩ := real_difference hx
  refine ⟨hfinite, ?_⟩
  have hpos : (0 : ℚ) < 2 ^ (-149 : ℤ) := by positivity
  have hfirst : (0 : ℚ) ≤ |x.value| / 2 ^ 22 := by positivity
  have hsplit : (2 : ℚ) ^ (-147 : ℤ) = 4 * 2 ^ (-149 : ℤ) := by
    rw [show (-147 : ℤ) = 2 + -149 by norm_num, zpow_add₀ (by norm_num)]
    norm_num
  by_cases h0 : x.biasedExponent = 0
  · -- no leading bit: the error is not small against the mantissa, but a few units
    obtain ⟨-, hthree⟩ := keptFraction_error x.fractionField_lt
    have hthreeq : ((|(keptFraction x.fractionField : ℤ) - x.fractionField| : ℤ) : ℚ) ≤ 3 := by
      exact_mod_cast hthree
    have hleast : (2 : ℚ) ^ (((max x.biasedExponent 1 : ℕ) : ℤ) - 150) = 2 ^ (-149 : ℤ) := by
      rw [h0]
      rfl
    rw [hdifference, hleast, hsplit]
    calc ((|(keptFraction x.fractionField : ℤ) - x.fractionField| : ℤ) : ℚ) * 2 ^ (-149 : ℤ)
        ≤ 4 * 2 ^ (-149 : ℤ) := by
          gcongr
          linarith
      _ ≤ _ := le_add_of_nonneg_left hfirst
  · have herror := real_error_normal hx h0
    linarith

/-- **Quantizing is off by at most the 2^-22th part.** -/
theorem quantizeCoordinate_error {x : Scalar} (hx : x.isFinite = true) :
    (quantizeCoordinate x).isFinite = true ∧
      |(quantizeCoordinate x).value - x.value| ≤ |x.value| / 2 ^ 22 + 2 ^ (-147 : ℤ) := by
  rcases quantizeCoordinate_cases x with h | h
  · rw [h, sub_self, abs_zero]
    exact ⟨hx, by positivity⟩
  · rw [h]
    exact real_error hx

end Icon

end VectorIcon

/-
  VectorIcon.Proofs.Number.Arithmetic
  ────────────────────────────────
  **THE OPERATIONS ROUND THE EXACT RESULT.**

  `Scalar.value` is the rational number a finite number stands for.  A sum, a
  difference, a product or a quotient is the rounded exact result
  (`Approximates`), comparison of finite numbers compares their values
  (`compare_eq`), and a finite answer of a sum, a difference or a product comes
  from finite operands.
-/
import Mathlib.Algebra.Order.Ring.Rat
import VectorIcon.Proofs.Number.Unpacked

namespace VectorIcon

open Float.Model Float.Model.UnpackedFloat

/-! ## §1. Values. -/

/-- The number a mantissa with an exponent stands for; zero for what is not
    finite. -/
def valueOf : UnpackedFloat → ℚ
  | .finite s m e _ => (s.apply m : ℤ) * 2 ^ e
  | _ => 0

theorem valueOf_signedMantissa (s : Sign) (m : ℕ) (e : ℤ) :
    valueOf (signedMantissa s m e) = (s.apply m : ℤ) * 2 ^ e := by
  rcases m.eq_zero_or_pos with rfl | hm
  · have hzero : s.apply (0 : ℕ) = 0 := by cases s <;> rfl
    rw [hzero, Int.cast_zero, zero_mul]
    rfl
  · rw [signedMantissa_pos s e hm]
    rfl

theorem isFinite_signedMantissa (s : Sign) (m : ℕ) (e : ℤ) :
    (signedMantissa s m e).isFinite = true := by
  rcases m.eq_zero_or_pos with rfl | hm
  · rfl
  · rw [signedMantissa_pos s e hm]
    rfl

theorem isNaN_signedMantissa (s : Sign) (m : ℕ) (e : ℤ) :
    (signedMantissa s m e).isNaN = false := by
  rcases m.eq_zero_or_pos with rfl | hm
  · rfl
  · rw [signedMantissa_pos s e hm]
    rfl

namespace Scalar

/-- The exact value of a finite number, zero for infinities and NaN. -/
def value (x : Scalar) : ℚ :=
  match x.magnitude? with
  | some d => (if x.isNegative then -1 else 1) * d.mantissa * 2 ^ d.exponent
  | none => 0

theorem value_eq (x : Scalar) : x.value = valueOf x.unpacked := by
  -- with or without the implicit bit, the sign is a factor
  have hsign (m : ℕ) (e : ℤ) : (if x.isNegative then -1 else 1) * (m : ℚ) * 2 ^ e =
      valueOf (signedMantissa (signOf x.isNegative) m e) := by
    rw [valueOf_signedMantissa]
    unfold signOf
    split
    · show -1 * (m : ℚ) * 2 ^ e = ((-(m : ℤ) : ℤ) : ℚ) * 2 ^ e
      push_cast
      ring
    · show 1 * (m : ℚ) * 2 ^ e = ((m : ℤ) : ℚ) * 2 ^ e
      push_cast
      ring
  rw [x.unpacked_eq]
  unfold value magnitude? ofFields
  simp only
  by_cases h255 : x.biasedExponent = 255
  · rw [if_pos h255, if_pos h255]
    by_cases hf : x.fractionField = 0
    · rw [if_pos hf]
      rfl
    · rw [if_neg hf]
      rfl
  · rw [if_neg h255, if_neg h255]
    by_cases h0 : x.biasedExponent = 0
    · rw [if_pos h0, if_pos h0]
      exact hsign _ _
    · rw [if_neg h0, if_neg h0]
      exact hsign _ _

theorem isFinite_eq (x : Scalar) : isFinite x = x.unpacked.isFinite := by
  rw [x.unpacked_eq]
  unfold isFinite ofFields
  by_cases h255 : x.biasedExponent = 255
  · rw [if_pos h255, h255]
    split <;> rfl
  · rw [if_neg h255, bne_iff_ne.2 h255]
    split <;> exact (isFinite_signedMantissa _ _ _).symm

theorem isNaN_eq (x : Scalar) : isNaN x = x.unpacked.isNaN := by
  rw [x.unpacked_eq]
  unfold isNaN ofFields
  by_cases h255 : x.biasedExponent = 255
  · rw [if_pos h255, h255]
    by_cases hf : x.fractionField = 0
    · rw [if_pos hf, hf]
      rfl
    · rw [if_neg hf, bne_iff_ne.2 hf]
      rfl
  · rw [if_neg h255, beq_eq_false_iff_ne.2 h255]
    split <;> exact (isNaN_signedMantissa _ _ _).symm

/-- Every finite number is a multiple of the least one. -/
theorem value_multiple (x : Scalar) : ∃ k : ℤ, x.value = k * 2 ^ (-149 : ℤ) := by
  rw [value_eq]
  have hsingle := x.isSingle
  cases hx : x.unpacked with
  | finite s m e hm =>
    rw [hx] at hsingle
    obtain ⟨⟨-, he, -⟩, -⟩ := hsingle
    refine ⟨s.apply m * 2 ^ (e + 149).toNat, ?_⟩
    show (s.apply m : ℤ) * (2 : ℚ) ^ e = _
    push_cast
    rw [mul_assoc, ← zpow_natCast, ← zpow_add₀ (by norm_num)]
    congr 2
    omega
  | infinity | notANumber | zero =>
    refine ⟨0, ?_⟩
    show (0 : ℚ) = _
    rw [Int.cast_zero, zero_mul]

end Scalar

/-! ## §2. Answers. -/

/-- `z` is `x` rounded: if it is finite it is the rounded number, and it is
    finite unless `x` is huge. -/
structure Approximates (z : Scalar) (x : ℚ) : Prop where
  rounds : z.isFinite = true → Rounds x z.value
  finite : |x| < 2 ^ 127 → z.isFinite = true

/-- What is short is not rounded. -/
theorem Approximates.exact_of_short {z : Scalar} {x : ℚ} (h : Approximates z x) (hshort : Short x)
    (hbound : |x| < 2 ^ 127) : z.isFinite = true ∧ z.value = x := by
  have hfinite := h.finite hbound
  exact ⟨hfinite, (h.rounds hfinite).exact hshort⟩

theorem abs_apply (s : Sign) (m : ℕ) : |((s.apply m : ℤ) : ℚ)| = m := by
  cases s with
  | negative =>
    show |((-(m : ℤ) : ℤ) : ℚ)| = m
    push_cast
    rw [abs_neg]
    exact abs_of_nonneg (Nat.cast_nonneg m)
  | positive => exact abs_of_nonneg (Nat.cast_nonneg m)

theorem apply_neg (s : Sign) (n : ℤ) : (-s).apply n = -s.apply n := by
  cases s with
  | negative => exact (neg_neg n).symm
  | positive => rfl

/-- **A rounded mantissa is packed into the rounded number.** -/
theorem approximates_pack {s : Sign} {m : ℕ} {e : ℤ} {x : ℚ} (hfits : Fits m e)
    (hrounds : Rounds x ((s.apply m : ℤ) * 2 ^ e)) :
    Approximates (.ofModel (.pack (signedMantissa s m e))) x := by
  by_cases he : e ≤ 104
  · have hunpacked : Scalar.unpacked (.ofModel (.pack (signedMantissa s m e))) = signedMantissa s m e :=
      unpack_pack (isSingle_signedMantissa s hfits he)
    constructor
    · intro _
      rwa [Scalar.value_eq, hunpacked, valueOf_signedMantissa]
    · intro _
      rw [Scalar.isFinite_eq, hunpacked, isFinite_signedMantissa]
  · have hbig : 2 ^ 23 ≤ m := hfits.normal.resolve_right (by omega)
    have hm : 0 < m := by omega
    have hunpacked : Scalar.unpacked (.ofModel (.pack (signedMantissa s m e))) = .infinity s := by
      rw [signedMantissa_pos s e hm]
      exact unpack_pack_overflow s hm (by omega)
    constructor
    · intro hz
      rw [Scalar.isFinite_eq, hunpacked] at hz
      cases hz
    · -- rounding does not lift a number to twice its bound
      intro hx
      exfalso
      have hlow : (2 : ℚ) ^ 128 ≤ |((s.apply m : ℤ) : ℚ) * 2 ^ e| := by
        rw [abs_mul, abs_apply, abs_of_pos (by positivity : (0 : ℚ) < 2 ^ e)]
        calc (2 : ℚ) ^ 128 = (2 ^ 23 : ℕ) * 2 ^ (105 : ℤ) := by norm_num
          _ ≤ m * 2 ^ (105 : ℤ) := by
            gcongr
          _ ≤ m * 2 ^ e := by
            have : (2 : ℚ) ^ (105 : ℤ) ≤ 2 ^ e := zpow_le_zpow_right₀ (by norm_num) (by omega)
            gcongr
      have hsmall : (2 : ℚ) ^ (-150 : ℤ) ≤ 1 := zpow_le_one_of_nonpos₀ (by norm_num) (by norm_num)
      have herror : |((s.apply m : ℤ) : ℚ) * 2 ^ e - x| ≤ |x| / 2 ^ 24 + 1 :=
        le_trans hrounds.error_le (by gcongr)
      have htriangle := abs_sub_abs_le_abs_sub (((s.apply m : ℤ) : ℚ) * 2 ^ e) x
      have : |x| / 2 ^ 24 ≤ 2 ^ 127 / 2 ^ 24 := by gcongr
      linarith

/-! ## §3. Operations on finite numbers. -/

/-- An operation which answers with a rounded mantissa. -/
def RoundsTo (u : UnpackedFloat) (x : ℚ) : Prop :=
  ∃ s m e, u = signedMantissa s m e ∧ Fits m e ∧ Rounds x ((s.apply m : ℤ) * 2 ^ e)

theorem RoundsTo.approximates {u : UnpackedFloat} {x : ℚ} (h : RoundsTo u x) :
    Approximates (.ofModel (.pack u)) x := by
  obtain ⟨s, m, e, rfl, hfits, hrounds⟩ := h
  exact approximates_pack hfits hrounds

/-- A finite number is rounded to itself. -/
theorem RoundsTo.self {u : UnpackedFloat} (hu : IsSingle u) (hfinite : u.isFinite = true) :
    RoundsTo u (valueOf u) := by
  cases u with
  | infinity | notANumber => cases hfinite
  | zero s =>
    refine ⟨s, 0, -149, rfl, ⟨by norm_num, le_refl _, .inr rfl⟩, ?_⟩
    rw [← valueOf_signedMantissa]
    exact Rounds.refl 0
  | finite s m e hm =>
    exact ⟨s, m, e, (signedMantissa_pos s e hm).symm, hu.1, Rounds.refl _⟩

theorem RoundsTo.zero (s : Sign) : RoundsTo (.zero s) 0 := RoundsTo.self (u := .zero s) trivial rfl

/-- A mantissa is lengthened down to a smaller exponent. -/
theorem apply_shiftLeft (s : Sign) (m : ℕ) {e e' : ℤ} (h : e' ≤ e) :
    ((s.apply (m <<< (e - e').toNat : ℕ) : ℤ) : ℚ) * 2 ^ e' = (s.apply m : ℤ) * 2 ^ e := by
  have hcast : ((s.apply (m <<< (e - e').toNat : ℕ) : ℤ) : ℚ) =
      (s.apply m : ℤ) * 2 ^ (e - e').toNat := by
    rw [Nat.shiftLeft_eq]
    cases s with
    | negative =>
      show ((-((m * 2 ^ (e - e').toNat : ℕ) : ℤ) : ℤ) : ℚ) = ((-(m : ℤ) : ℤ) : ℚ) * _
      push_cast
      ring
    | positive =>
      show (((m * 2 ^ (e - e').toNat : ℕ) : ℤ) : ℚ) = ((m : ℤ) : ℚ) * _
      push_cast
      rfl
  rw [hcast, ← zpow_natCast, mul_assoc, ← zpow_add₀ (by norm_num)]
  congr 2
  omega

theorem add_roundsTo {u v : UnpackedFloat} (hu : IsSingle u) (hv : IsSingle v)
    (hfu : u.isFinite = true) (hfv : v.isFinite = true) :
    RoundsTo (UnpackedFloat.add .binary32 u v) (valueOf u + valueOf v) := by
  cases u with
  | infinity | notANumber => cases hfu
  | zero s =>
    cases v with
    | infinity | notANumber => cases hfv
    | zero s' =>
      show RoundsTo (if s == s' then .zero s else .zero .positive) (0 + 0)
      rw [add_zero]
      split <;> exact RoundsTo.zero _
    | finite s' m e hm =>
      show RoundsTo (.finite s' m e hm) (0 + _)
      rw [zero_add]
      exact RoundsTo.self hv rfl
  | finite s m e hm =>
    cases v with
    | infinity | notANumber => cases hfv
    | zero s' =>
      show RoundsTo (.finite s m e hm) (_ + 0)
      rw [add_zero]
      exact RoundsTo.self hu rfl
    | finite s' m' e' hm' =>
      -- both mantissas are lengthened down to the smaller exponent
      have h := normalize_single (s.apply (m <<< (e - min e e').toNat : ℕ) +
        s'.apply (m' <<< (e' - min e e').toNat : ℕ)) (min e e') .positive
      have hsum : ((s.apply (m <<< (e - min e e').toNat : ℕ) +
          s'.apply (m' <<< (e' - min e e').toNat : ℕ) : ℤ) : ℚ) * 2 ^ (min e e') =
          (s.apply m : ℤ) * 2 ^ e + (s'.apply m' : ℤ) * 2 ^ e' := by
        rw [Int.cast_add, add_mul, apply_shiftLeft s m (min_le_left e e'),
          apply_shiftLeft s' m' (min_le_right e e')]
      rw [hsum] at h
      exact h

/-- A sign as a factor. -/
def signFactor : Sign → ℚ
  | .negative => -1
  | .positive => 1

theorem apply_cast (s : Sign) (n : ℤ) : ((s.apply n : ℤ) : ℚ) = signFactor s * n := by
  cases s with
  | negative =>
    show ((-n : ℤ) : ℚ) = -1 * n
    push_cast
    ring
  | positive => exact (one_mul _).symm

theorem signFactor_mul (s s' : Sign) : signFactor (s * s') = signFactor s * signFactor s' := by
  cases s with
  | negative =>
    cases s' with
    | negative => exact (by norm_num : (1 : ℚ) = -1 * -1)
    | positive => exact (by norm_num : (-1 : ℚ) = -1 * 1)
  | positive =>
    cases s' with
    | negative => exact (by norm_num : (-1 : ℚ) = 1 * -1)
    | positive => exact (by norm_num : (1 : ℚ) = 1 * 1)

/-- What is rounded up to its sign is rounded with its sign. -/
theorem Rounds.apply (s : Sign) {x : ℚ} {m : ℕ} {e : ℤ} (h : Rounds x (m * 2 ^ e)) :
    Rounds (signFactor s * x) ((s.apply m : ℤ) * 2 ^ e) := by
  rw [apply_cast]
  cases s with
  | negative =>
    show Rounds (-1 * x) (-1 * (m : ℚ) * 2 ^ e)
    rw [mul_assoc, neg_one_mul, neg_one_mul]
    exact h.neg
  | positive =>
    show Rounds (1 * x) (1 * (m : ℚ) * 2 ^ e)
    rw [mul_assoc, one_mul, one_mul]
    exact h

theorem mul_roundsTo {u v : UnpackedFloat} (hu : IsSingle u) (hv : IsSingle v)
    (hfu : u.isFinite = true) (hfv : v.isFinite = true) :
    RoundsTo (UnpackedFloat.mul .binary32 u v) (valueOf u * valueOf v) := by
  cases u with
  | infinity | notANumber => cases hfu
  | zero s =>
    cases v with
    | infinity | notANumber => cases hfv
    | zero s' =>
      show RoundsTo (.zero (s * s')) (0 * 0)
      rw [zero_mul]
      exact RoundsTo.zero _
    | finite s' m e hm =>
      show RoundsTo (.zero (s * s')) (0 * _)
      rw [zero_mul]
      exact RoundsTo.zero _
  | finite s m e hm =>
    cases v with
    | infinity | notANumber => cases hfv
    | zero s' =>
      show RoundsTo (.zero (s * s')) (_ * 0)
      rw [mul_zero]
      exact RoundsTo.zero _
    | finite s' m' e' hm' =>
      obtain ⟨⟨-, -, hnormal⟩, -⟩ := hu
      obtain ⟨⟨-, -, hnormal'⟩, -⟩ := hv
      -- a product with a mantissa of full width has at least full width
      have hlong : 23 ≤ (m * m').log2 ∨ e + e' ≤ -149 := by
        have hne : m * m' ≠ 0 := (Nat.mul_pos hm hm').ne'
        rcases hnormal with h | h
        · left
          rw [Nat.le_log2 hne]
          exact le_trans h (Nat.le_mul_of_pos_right m hm')
        · rcases hnormal' with h' | h'
          · left
            rw [Nat.le_log2 hne]
            exact le_trans h' (Nat.le_mul_of_pos_left m' hm)
          · right
            omega
      obtain ⟨k, f, hround, hfits, hrounds⟩ :=
        roundWithAccuracy_single (s * s') hlong (Describes.exact (m * m'))
      refine ⟨s * s', k, f, hround, hfits, ?_⟩
      have hproduct : valueOf (.finite s m e hm) * valueOf (.finite s' m' e' hm') =
          signFactor (s * s') * (((m * m' : ℕ) : ℚ) * 2 ^ (e + e')) := by
        show ((s.apply m : ℤ) : ℚ) * 2 ^ e * (((s'.apply m' : ℤ) : ℚ) * 2 ^ e') = _
        rw [apply_cast, apply_cast, signFactor_mul, zpow_add₀ (by norm_num)]
        push_cast
        ring
      rw [hproduct]
      exact hrounds.apply (s * s')

/-- The quotient of two mantissas, lengthened far enough for a full mantissa. -/
theorem divCore_single {m m' : ℕ} (e e' : ℤ) (hm : 0 < m) (hm' : 0 < m') :
    ∃ k f acc x, divCore .binary32 m e m' e' = (k, f, acc) ∧ (23 ≤ k.log2 ∨ f ≤ -149) ∧
      Describes (.ofMantissaAndAccuracy k acc) x ∧ x * 2 ^ f = (m * 2 ^ e) / (m' * 2 ^ e') := by
  unfold divCore totalExponent
  simp only
  rw [targetExponent_single]
  generalize htarget : min (e - e')
    (max (((m.log2 : ℤ) + 1 + e) - (m'.log2 + 1 + e') - 24) (-149)) = target
  generalize hshift : (e - e' - target).toNat = shift
  refine ⟨_, _, _, _, rfl, ?_, Describes.quotient (m <<< shift) hm', ?_⟩
  · -- unless the exponent is the least one, the dividend was made long enough for 24 bits
    by_cases hleast : target ≤ -149
    · exact .inr hleast
    · left
      have hlong : m'.log2 + 24 ≤ m.log2 + shift := by omega
      have hbound : 2 ^ 23 ≤ m <<< shift / m' := by
        rw [Nat.le_div_iff_mul_le hm', Nat.shiftLeft_eq]
        calc 2 ^ 23 * m' ≤ 2 ^ 23 * 2 ^ (m'.log2 + 1) :=
              Nat.mul_le_mul_left _ Nat.lt_log2_self.le
          _ = 2 ^ (m'.log2 + 24) := by rw [← pow_add]; congr 1; omega
          _ ≤ 2 ^ (m.log2 + shift) := Nat.pow_le_pow_right (by norm_num) hlong
          _ = 2 ^ m.log2 * 2 ^ shift := pow_add _ _ _
          _ ≤ m * 2 ^ shift := Nat.mul_le_mul_right _ (Nat.log2_self_le hm.ne')
      exact (Nat.le_log2 (by omega)).2 hbound
  · have hm'q : (m' : ℚ) ≠ 0 := by exact_mod_cast hm'.ne'
    have hexponent : (e : ℤ) = e' + (shift : ℤ) + target := by omega
    rw [Nat.shiftLeft_eq, hexponent, zpow_add₀ (by norm_num), zpow_add₀ (by norm_num), zpow_natCast]
    push_cast
    field_simp

theorem signFactor_div (s s' : Sign) : signFactor (s / s') = signFactor s / signFactor s' := by
  cases s <;> cases s' <;> simp only [signFactor] <;> norm_num <;> rfl

/-- The divisor is not zero. -/
theorem div_roundsTo {u v : UnpackedFloat} (hfu : u.isFinite = true) (hfv : v.isFinite = true)
    (hv : valueOf v ≠ 0) : RoundsTo (UnpackedFloat.div .binary32 u v) (valueOf u / valueOf v) := by
  cases v with
  | infinity | notANumber => cases hfv
  | zero s' => exact absurd rfl hv
  | finite s' m' e' hm' =>
    cases u with
    | infinity | notANumber => cases hfu
    | zero s =>
      show RoundsTo (.zero (s / s')) (0 / _)
      rw [zero_div]
      exact RoundsTo.zero _
    | finite s m e hm =>
      obtain ⟨k, f, acc, x, hcore, hlong, hdescribes, hx⟩ :=
        divCore_single e e' hm hm'
      obtain ⟨n, g, hround, hfits, hrounds⟩ := roundWithAccuracy_single (s / s') hlong hdescribes
      refine ⟨s / s', n, g, ?_, hfits, ?_⟩
      · rw [← hround]
        unfold UnpackedFloat.div
        simp only
        rw [hcore]
      · have hquotient : valueOf (.finite s m e hm) / valueOf (.finite s' m' e' hm') =
            signFactor (s / s') * (x * 2 ^ f) := by
          show ((s.apply m : ℤ) : ℚ) * 2 ^ e / (((s'.apply m' : ℤ) : ℚ) * 2 ^ e') = _
          rw [hx, apply_cast, apply_cast, signFactor_div, div_mul_div_comm]
          push_cast
          ring
        rw [hquotient]
        exact hrounds.apply (s / s')

namespace Scalar

variable {a b : Scalar}

/-- A finite value has 24 bits. -/
theorem value_short (x : Scalar) : Short x.value := by
  rw [value_eq]
  have hsingle := x.isSingle
  cases hx : x.unpacked with
  | finite s m e hm =>
    rw [hx] at hsingle
    obtain ⟨⟨hlt, he, -⟩, -⟩ := hsingle
    refine ⟨s.apply m, e, ?_, he, rfl⟩
    have h := abs_apply s m
    have : |((s.apply m : ℤ) : ℚ)| < 2 ^ 24 := by
      rw [h]
      exact_mod_cast hlt
    exact_mod_cast this
  | infinity | notANumber | zero =>
    show Short ((0 : ℤ) : ℚ)
    exact Short.ofInt (by norm_num)

/-- All values are in the range of single precision. -/
theorem abs_value_lt (x : Scalar) : |x.value| < 2 ^ 128 := by
  rw [value_eq]
  have hsingle := x.isSingle
  cases hx : x.unpacked with
  | finite s m e hm =>
    rw [hx] at hsingle
    obtain ⟨⟨hlt, -, -⟩, he⟩ := hsingle
    have hmantissa : (m : ℚ) < 2 ^ 24 := by exact_mod_cast hlt
    have hpow : (2 : ℚ) ^ e ≤ 2 ^ (104 : ℤ) := zpow_le_zpow_right₀ (by norm_num) he
    show |((s.apply m : ℤ) : ℚ) * 2 ^ e| < _
    rw [abs_mul, abs_apply, abs_of_pos (by positivity : (0 : ℚ) < 2 ^ e)]
    calc (m : ℚ) * 2 ^ e ≤ m * 2 ^ (104 : ℤ) := by gcongr
      _ < 2 ^ 24 * 2 ^ (104 : ℤ) := by gcongr
      _ = 2 ^ 128 := by norm_num
  | infinity | notANumber | zero =>
    show |(0 : ℚ)| < _
    rw [abs_zero]
    positivity

/-- The value of a number by its unpacked form. -/
theorem literal {x : Scalar} (s : Sign) (m : ℕ) (e : ℤ) {v : ℚ}
    (hx : ∃ hm, x.unpacked = .finite s m e hm) (hv : (s.apply m : ℤ) * (2 : ℚ) ^ e = v) :
    isFinite x = true ∧ x.value = v := by
  obtain ⟨hm, hx⟩ := hx
  rw [isFinite_eq, value_eq, hx]
  exact ⟨rfl, hv⟩

theorem add_approximates (ha : isFinite a = true) (hb : isFinite b = true) :
    Approximates (a + b) (a.value + b.value) := by
  rw [isFinite_eq] at ha hb
  rw [value_eq, value_eq]
  exact (add_roundsTo a.isSingle b.isSingle ha hb).approximates

theorem mul_approximates (ha : isFinite a = true) (hb : isFinite b = true) :
    Approximates (a * b) (a.value * b.value) := by
  rw [isFinite_eq] at ha hb
  rw [value_eq, value_eq]
  exact (mul_roundsTo a.isSingle b.isSingle ha hb).approximates

theorem div_approximates (ha : isFinite a = true) (hb : isFinite b = true) (h : b.value ≠ 0) :
    Approximates (a / b) (a.value / b.value) := by
  rw [isFinite_eq] at ha hb
  rw [value_eq] at h
  rw [value_eq, value_eq]
  exact (div_roundsTo ha hb h).approximates

/-- Sums do not depend on the order. -/
protected theorem add_comm (a b : Scalar) : a + b = b + a := by
  -- infinities and zeros are told apart by their signs, which compare either way
  have hunpacked (u v : UnpackedFloat) :
      UnpackedFloat.add .binary32 u v = UnpackedFloat.add .binary32 v u := by
    cases u with
    | notANumber => cases v <;> rfl
    | infinity s =>
      cases v with
      | infinity s' => cases s <;> cases s' <;> rfl
      | notANumber | zero | finite => rfl
    | zero s =>
      cases v with
      | zero s' => cases s <;> cases s' <;> rfl
      | notANumber | infinity | finite => rfl
    | finite s m e hm =>
      cases v with
      | notANumber | infinity | zero => rfl
      | finite s' m' e' hm' =>
        show UnpackedFloat.normalize .binary32 _ (min e e') _ =
          UnpackedFloat.normalize .binary32 _ (min e' e) _
        rw [min_comm e' e, Int.add_comm]
  exact congrArg (fun u => Float32.ofModel (.pack u)) (hunpacked a.unpacked b.unpacked)

/-- Sums have no error of their own near zero. -/
theorem add_error (h : isFinite (a + b) = true) (ha : isFinite a = true) (hb : isFinite b = true) :
    |(a + b).value - (a.value + b.value)| ≤ |a.value + b.value| / 2 ^ 24 := by
  obtain ⟨k, hk⟩ := a.value_multiple
  obtain ⟨l, hl⟩ := b.value_multiple
  refine ((add_approximates ha hb).rounds h).relative ⟨k + l, ?_⟩
  rw [hk, hl]
  push_cast
  ring

/-! ## §4. Signs. -/

theorem isSingle_neg {u : UnpackedFloat} (h : IsSingle u) : IsSingle u.neg := by
  cases u <;> exact h

theorem isSingle_abs {u : UnpackedFloat} (h : IsSingle u) : IsSingle u.abs := by
  cases u <;> exact h

theorem unpacked_neg (a : Scalar) : unpacked (-a) = a.unpacked.neg :=
  unpack_pack (isSingle_neg a.isSingle)

theorem unpacked_abs (a : Scalar) : unpacked a.abs = a.unpacked.abs :=
  unpack_pack (isSingle_abs a.isSingle)

theorem value_neg (a : Scalar) : (-a).value = -a.value := by
  rw [value_eq, value_eq, unpacked_neg]
  cases a.unpacked with
  | infinity | notANumber | zero => exact neg_zero.symm
  | finite s m e hm =>
    show (((-s).apply m : ℤ) : ℚ) * 2 ^ e = -(((s.apply m : ℤ) : ℚ) * 2 ^ e)
    rw [apply_neg, Int.cast_neg, neg_mul]

theorem isFinite_neg (a : Scalar) : isFinite (-a) = isFinite a := by
  rw [isFinite_eq, isFinite_eq, unpacked_neg]
  cases a.unpacked <;> rfl

theorem value_abs (a : Scalar) : value a.abs = |a.value| := by
  rw [value_eq, value_eq, unpacked_abs]
  cases a.unpacked with
  | infinity | notANumber | zero => exact abs_zero.symm
  | finite s m e hm =>
    show ((m : ℤ) : ℚ) * 2 ^ e = |((s.apply m : ℤ) : ℚ) * 2 ^ e|
    rw [abs_mul, abs_apply, abs_of_pos (by positivity : (0 : ℚ) < 2 ^ e)]
    rfl

theorem isFinite_abs (a : Scalar) : isFinite a.abs = isFinite a := by
  rw [isFinite_eq, isFinite_eq, unpacked_abs]
  cases a.unpacked <;> rfl

/-- **A difference is a sum.** -/
protected theorem sub_eq_add_neg (a b : Scalar) : a - b = a + -b := by
  have hunpacked (u v : UnpackedFloat) :
      UnpackedFloat.sub .binary32 u v = UnpackedFloat.add .binary32 u v.neg := by
    cases u with
    | notANumber => rfl
    | infinity | zero => cases v <;> rfl
    | finite s m e hm =>
      cases v with
      | notANumber | infinity | zero => rfl
      | finite s' m' e' hm' =>
        show UnpackedFloat.normalize .binary32 (s.apply _ - s'.apply _) _ _ =
          UnpackedFloat.normalize .binary32 (s.apply _ + (-s').apply _) _ _
        rw [apply_neg, Int.sub_eq_add_neg]
  show Float32.ofModel (.pack (UnpackedFloat.sub .binary32 a.unpacked b.unpacked)) =
    .ofModel (.pack (UnpackedFloat.add .binary32 a.unpacked (unpacked (-b))))
  rw [hunpacked, unpacked_neg]

theorem sub_approximates (ha : isFinite a = true) (hb : isFinite b = true) :
    Approximates (a - b) (a.value - b.value) := by
  have h := add_approximates ha ((isFinite_neg b).trans hb)
  rwa [← Scalar.sub_eq_add_neg, value_neg, ← sub_eq_add_neg] at h

theorem sub_error (h : isFinite (a - b) = true) (ha : isFinite a = true) (hb : isFinite b = true) :
    |(a - b).value - (a.value - b.value)| ≤ |a.value - b.value| / 2 ^ 24 := by
  rw [Scalar.sub_eq_add_neg] at h
  have herror := add_error h ha ((isFinite_neg b).trans hb)
  rwa [← Scalar.sub_eq_add_neg, value_neg, ← sub_eq_add_neg] at herror

end Scalar

/-! ## §5. What is not finite stays so. -/

section

variable {u v : UnpackedFloat}

theorem add_nonfinite (h : u.isFinite = false ∨ v.isFinite = false) :
    (UnpackedFloat.add .binary32 u v).isFinite = false := by
  cases u with
  | notANumber => rfl
  | infinity s =>
    cases v with
    | infinity s' =>
      show (if s == s' then UnpackedFloat.infinity s else .notANumber).isFinite = false
      split <;> rfl
    | notANumber | zero | finite => rfl
  | zero | finite =>
    cases v with
    | notANumber | infinity => rfl
    | zero | finite => rcases h with h | h <;> cases h

theorem mul_nonfinite (h : u.isFinite = false ∨ v.isFinite = false) :
    (UnpackedFloat.mul .binary32 u v).isFinite = false := by
  cases u with
  | notANumber => rfl
  | infinity => cases v <;> rfl
  | zero | finite =>
    cases v with
    | notANumber | infinity => rfl
    | zero | finite => rcases h with h | h <;> cases h

end

namespace Scalar

variable {a b : Scalar}

theorem isFinite_pack_nonfinite {u : UnpackedFloat} (h : u.isFinite = false) :
    isFinite (.ofModel (.pack u)) = false := by
  have hu : IsSingle u := by
    cases u with
    | infinity | notANumber => exact trivial
    | zero | finite => cases h
  rw [isFinite_eq]
  show (Float32.Model.pack u).unpack.isFinite = false
  rw [unpack_pack hu]
  exact h

/-- If one operand is not finite, the operands are not both finite. -/
theorem nonfinite_operand (h : ¬ (isFinite a = true ∧ isFinite b = true)) :
    a.unpacked.isFinite = false ∨ b.unpacked.isFinite = false := by
  rw [isFinite_eq, isFinite_eq, not_and_or, Bool.not_eq_true, Bool.not_eq_true] at h
  exact h

/-- A sum is finite only if its operands are. -/
theorem isFinite_of_add (h : isFinite (a + b) = true) : isFinite a = true ∧ isFinite b = true := by
  -- an infinity or a NaN is not summed away
  by_contra hnot
  have hsum : isFinite (a + b) = false := isFinite_pack_nonfinite (add_nonfinite (nonfinite_operand hnot))
  rw [hsum] at h
  cases h

/-- A difference is finite only if its operands are. -/
theorem isFinite_of_sub (h : isFinite (a - b) = true) : isFinite a = true ∧ isFinite b = true := by
  rw [Scalar.sub_eq_add_neg] at h
  obtain ⟨ha, hb⟩ := isFinite_of_add h
  exact ⟨ha, (isFinite_neg b).symm.trans hb⟩

/-- A product is finite only if its operands are. -/
theorem isFinite_of_mul (h : isFinite (a * b) = true) : isFinite a = true ∧ isFinite b = true := by
  by_contra hnot
  have hproduct : isFinite (a * b) = false :=
    isFinite_pack_nonfinite (mul_nonfinite (nonfinite_operand hnot))
  rw [hproduct] at h
  cases h

end Scalar

/-! ## §6. Comparison. -/

/-- A greater exponent makes a greater number. -/
theorem lt_of_exponent_lt {m m' : ℕ} {e e' : ℤ} (h : Fits m e) (h' : Fits m' e') (he : e < e') :
    (m : ℚ) * 2 ^ e < m' * 2 ^ e' := by
  have hbig : 2 ^ 23 ≤ m' := h'.normal.resolve_right (by have := h.exponent_ge; omega)
  calc (m : ℚ) * 2 ^ e < (2 ^ 24 : ℕ) * 2 ^ e := by
        gcongr
        exact_mod_cast h.mantissa_lt
    _ = (2 ^ 23 : ℕ) * 2 ^ (e + 1) := by
        rw [zpow_add₀ (by norm_num)]
        push_cast
        ring
    _ ≤ m' * 2 ^ (e + 1) := by gcongr
    _ ≤ m' * 2 ^ e' := by
        have : (2 : ℚ) ^ (e + 1) ≤ 2 ^ e' := zpow_le_zpow_right₀ (by norm_num) (by omega)
        gcongr

/-- The order of positive numbers is that of their exponents and mantissas. -/
theorem compare_fits {m m' : ℕ} {e e' : ℤ} (h : Fits m e) (h' : Fits m' e') :
    (compare e e').then (compare m m') = compare ((m : ℚ) * 2 ^ e) (m' * 2 ^ e') := by
  rcases lt_trichotomy e e' with he | rfl | he
  · rw [compare_lt_iff_lt.2 he, compare_lt_iff_lt.2 (lt_of_exponent_lt h h' he)]
    rfl
  · have hpow : (0 : ℚ) < 2 ^ e := by positivity
    rw [compare_eq_iff_eq.2 rfl]
    show compare m m' = _
    rcases lt_trichotomy m m' with hm | rfl | hm
    · have : (m : ℚ) < m' := by exact_mod_cast hm
      rw [compare_lt_iff_lt.2 hm, compare_lt_iff_lt.2 (by gcongr)]
    · rw [compare_eq_iff_eq.2 rfl, compare_eq_iff_eq.2 rfl]
    · have : (m' : ℚ) < m := by exact_mod_cast hm
      rw [compare_gt_iff_gt.2 hm, compare_gt_iff_gt.2 (show _ < _ by gcongr)]
  · rw [compare_gt_iff_gt.2 he, compare_gt_iff_gt.2 (lt_of_exponent_lt h' h he)]
    rfl

theorem compare_neg_neg {α : Type} [AddCommGroup α] [LinearOrder α] [IsOrderedAddMonoid α] (x y : α) :
    compare (-x) (-y) = (compare x y).swap := by
  rcases lt_trichotomy x y with h | rfl | h
  · rw [compare_lt_iff_lt.2 h, compare_gt_iff_gt.2 (neg_lt_neg_iff.2 h)]
    rfl
  · rw [compare_eq_iff_eq.2 rfl, compare_eq_iff_eq.2 rfl]
    rfl
  · rw [compare_gt_iff_gt.2 h, compare_lt_iff_lt.2 (neg_lt_neg_iff.2 h)]
    rfl

/-- **Finite numbers are compared by their values.** -/
theorem compare_valueOf {u v : UnpackedFloat} (hu : IsSingle u) (hv : IsSingle v)
    (hfu : u.isFinite = true) (hfv : v.isFinite = true) :
    UnpackedFloat.compare u v = some (compare (valueOf u) (valueOf v)) := by
  -- signs decide unless they are equal, and then the magnitudes do
  have hpos (m : ℕ) (e : ℤ) (hm : 0 < m) : 0 < valueOf (.finite .positive m e hm) := by
    show (0 : ℚ) < (m : ℤ) * 2 ^ e
    positivity
  have hneg (m : ℕ) (e : ℤ) (hm : 0 < m) : valueOf (.finite .negative m e hm) < 0 := by
    show ((-(m : ℤ) : ℤ) : ℚ) * 2 ^ e < 0
    have : (0 : ℚ) < m * 2 ^ e := by positivity
    push_cast
    linarith
  cases u with
  | infinity | notANumber => cases hfu
  | zero s =>
    cases v with
    | infinity | notANumber => cases hfv
    | zero s' => exact congrArg some (compare_eq_iff_eq.2 rfl).symm
    | finite s' m' e' hm' =>
      cases s' with
      | negative => exact congrArg some (compare_gt_iff_gt.2 (hneg m' e' hm')).symm
      | positive => exact congrArg some (compare_lt_iff_lt.2 (hpos m' e' hm')).symm
  | finite s m e hm =>
    cases v with
    | infinity | notANumber => cases hfv
    | zero s' =>
      cases s with
      | negative => exact congrArg some (compare_lt_iff_lt.2 (hneg m e hm)).symm
      | positive => exact congrArg some (compare_gt_iff_gt.2 (hpos m e hm)).symm
    | finite s' m' e' hm' =>
      have hsame := compare_fits hu.1 hv.1
      cases s with
      | negative =>
        cases s' with
        | negative =>
          show some ((compare e e').then (compare m m')).swap =
            some (compare (((-(m : ℤ) : ℤ) : ℚ) * 2 ^ e) (((-(m' : ℤ) : ℤ) : ℚ) * 2 ^ e'))
          rw [hsame, ← compare_neg_neg]
          push_cast
          rw [neg_mul, neg_mul]
        | positive =>
          exact congrArg some (compare_lt_iff_lt.2 ((hneg m e hm).trans (hpos m' e' hm'))).symm
      | positive =>
        cases s' with
        | negative =>
          exact congrArg some (compare_gt_iff_gt.2 ((hneg m' e' hm').trans (hpos m e hm))).symm
        | positive => exact congrArg some hsame

namespace Scalar

variable {a b : Scalar}

theorem lt_iff_compare (a b : Scalar) :
    a < b ↔ UnpackedFloat.compare a.unpacked b.unpacked = some .lt := by
  show decide (UnpackedFloat.lt a.unpacked b.unpacked = true) = true ↔ _
  rw [decide_eq_true_eq]
  unfold UnpackedFloat.lt
  exact beq_iff_eq

theorem le_iff_compare (a b : Scalar) :
    a ≤ b ↔ (UnpackedFloat.compare a.unpacked b.unpacked).any (·.isLE) = true := by
  show decide (UnpackedFloat.le a.unpacked b.unpacked = true) = true ↔ _
  rw [decide_eq_true_eq]
  rfl

theorem beq_iff_compare (a b : Scalar) :
    (a == b) = true ↔ UnpackedFloat.compare a.unpacked b.unpacked = some .eq := by
  show UnpackedFloat.beq a.unpacked b.unpacked = true ↔ _
  unfold UnpackedFloat.beq
  exact beq_iff_eq

theorem compare_value (ha : isFinite a = true) (hb : isFinite b = true) :
    UnpackedFloat.compare a.unpacked b.unpacked = some (compare a.value b.value) := by
  rw [value_eq, value_eq]
  rw [isFinite_eq] at ha hb
  exact compare_valueOf a.isSingle b.isSingle ha hb

theorem lt_iff (ha : isFinite a = true) (hb : isFinite b = true) : a < b ↔ a.value < b.value := by
  rw [lt_iff_compare, compare_value ha hb, Option.some_inj]
  exact compare_lt_iff_lt

theorem le_iff (ha : isFinite a = true) (hb : isFinite b = true) : a ≤ b ↔ a.value ≤ b.value := by
  rw [le_iff_compare, compare_value ha hb]
  exact Ordering.ne_gt_iff_isLE.symm.trans compare_le_iff_le

theorem beq_iff (ha : isFinite a = true) (hb : isFinite b = true) :
    (a == b) = true ↔ a.value = b.value := by
  rw [beq_iff_compare, compare_value ha hb, Option.some_inj]
  exact compare_eq_iff_eq

/-- What lies between finite numbers is finite. -/
theorem isFinite_of_between {lo x hi : Scalar} (hlo : isFinite lo = true) (hhi : isFinite hi = true)
    (hlow : lo ≤ x) (hhigh : x ≤ hi) : isFinite x = true := by
  rw [isFinite_eq] at hlo hhi ⊢
  rw [le_iff_compare] at hlow hhigh
  generalize lo.unpacked = u at hlo hlow
  generalize hi.unpacked = v at hhi hhigh
  cases hx : x.unpacked with
  | zero | finite => rfl
  | notANumber =>
    rw [hx] at hhigh
    cases hhigh
  | infinity s =>
    rw [hx] at hlow hhigh
    cases s with
    | negative =>
      -- nothing finite is below
      cases u with
      | notANumber | infinity => cases hlo
      | zero | finite => cases hlow
    | positive =>
      cases v with
      | notANumber | infinity => cases hhi
      | zero | finite => cases hhigh

protected theorem le_of_lt {a b : Scalar} (h : a < b) : a ≤ b := by
  rw [lt_iff_compare] at h
  rw [le_iff_compare, h]
  rfl

end Scalar

end VectorIcon

/-
  VectorIcon.Proofs.Number.Order
  ────────────────────────────────
  **THE ORDER OF NUMBERS IS THAT OF THEIR BITS.**

  Without its sign bit the pattern of a number is a natural, the exponent field
  above the fraction field; with the sign of the number it is the `Scalar.rank`.
  Numbers are ordered as their ranks are (`Scalar.le_iff_rank`), infinities
  included and both zeros alike, so that a change of bits which keeps the order
  of ranks keeps the order of numbers.

  Rounding keeps it as well: what is rounded never passes a number of single
  precision (`Rounds.le_of_short`), because numbers of 24 bits are further apart
  than the error of rounding between them (`Short.gap`).
-/
import VectorIcon.Proofs.Number.Arithmetic

namespace VectorIcon

open Float.Model Float.Model.UnpackedFloat

/-! ## §1. Ranks. -/

/-- The bits of an unpacked number without the sign bit, with its sign.  The
    leading bit of a mantissa adds one to the exponent field. -/
def rankOf : UnpackedFloat → ℤ
  | .finite s m e _ => s.apply ((e + 149) * 0x800000 + m)
  | .infinity s => s.apply (255 * 0x800000)
  | .zero _ | .notANumber => 0

/-- Mantissas and exponents are ordered as the bits which they make. -/
theorem compare_bits {m m' : ℕ} {e e' : ℤ} (h : Fits m e) (h' : Fits m' e') :
    (compare e e').then (compare m m') =
      compare ((e + 149) * 0x800000 + (m : ℤ)) ((e' + 149) * 0x800000 + m') := by
  obtain ⟨hlt, hge, hnormal⟩ := h
  obtain ⟨hlt', hge', hnormal'⟩ := h'
  rcases lt_trichotomy e e' with he | rfl | he
  · -- above the least exponent a mantissa has its leading bit
    have hbits : (e + 149) * 0x800000 + (m : ℤ) < (e' + 149) * 0x800000 + m' := by omega
    rw [compare_lt_iff_lt.2 he, compare_lt_iff_lt.2 hbits]
    rfl
  · rw [compare_eq_iff_eq.2 rfl]
    show compare m m' = _
    rcases lt_trichotomy m m' with hm | rfl | hm
    · rw [compare_lt_iff_lt.2 hm, compare_lt_iff_lt.2 (by omega)]
    · rw [compare_eq_iff_eq.2 rfl, compare_eq_iff_eq.2 rfl]
    · rw [compare_gt_iff_gt.2 hm, compare_gt_iff_gt.2 (by omega)]
  · have hbits : (e' + 149) * 0x800000 + (m' : ℤ) < (e + 149) * 0x800000 + m := by omega
    rw [compare_gt_iff_gt.2 he, compare_gt_iff_gt.2 hbits]
    rfl

/-- The bits of a finite number lie between those of zero and of infinity. -/
theorem bits_bounds {m : ℕ} {e : ℤ} (h : Fits m e) (hm : 0 < m) (he : e ≤ 104) :
    0 < (e + 149) * 0x800000 + (m : ℤ) ∧ (e + 149) * 0x800000 + (m : ℤ) < 255 * 0x800000 := by
  obtain ⟨hlt, hge, -⟩ := h
  constructor <;> omega

/-- An infinity is beyond every finite number. -/
theorem compare_infinity (s : Sign) {u : UnpackedFloat} (hu : IsSingle u) (hfinite : u.isFinite = true) :
    UnpackedFloat.compare (.infinity s) u = some (compare (rankOf (.infinity s)) (rankOf u)) ∧
      UnpackedFloat.compare u (.infinity s) = some (compare (rankOf u) (rankOf (.infinity s))) := by
  have hbounds : -(255 * 0x800000) < rankOf u ∧ rankOf u < 255 * 0x800000 := by
    cases u with
    | infinity | notANumber => cases hfinite
    | zero => show -(255 * 0x800000) < (0 : ℤ) ∧ (0 : ℤ) < 255 * 0x800000; omega
    | finite s' m e hm =>
      have hbits := bits_bounds hu.1 hm hu.2
      cases s' with
      | negative =>
        show -(255 * 0x800000) < -((e + 149) * 0x800000 + (m : ℤ)) ∧
          -((e + 149) * 0x800000 + (m : ℤ)) < 255 * 0x800000
        omega
      | positive => exact ⟨by show -(255 * 0x800000) < (e + 149) * 0x800000 + (m : ℤ); omega, hbits.2⟩
  cases s with
  | negative =>
    have hrank : rankOf (.infinity .negative) < rankOf u := hbounds.1
    rw [compare_lt_iff_lt.2 hrank, compare_gt_iff_gt.2 hrank]
    cases u with
    | infinity | notANumber => cases hfinite
    | zero | finite => exact ⟨rfl, rfl⟩
  | positive =>
    have hrank : rankOf u < rankOf (.infinity .positive) := hbounds.2
    rw [compare_lt_iff_lt.2 hrank, compare_gt_iff_gt.2 hrank]
    cases u with
    | infinity | notANumber => cases hfinite
    | zero | finite => exact ⟨rfl, rfl⟩

/-- Finite numbers are compared by their ranks. -/
theorem compare_finite {u v : UnpackedFloat} (hu : IsSingle u) (hv : IsSingle v)
    (hfu : u.isFinite = true) (hfv : v.isFinite = true) :
    UnpackedFloat.compare u v = some (compare (rankOf u) (rankOf v)) := by
  have hpos {m : ℕ} {e : ℤ} {hm : 0 < m} (h : IsSingle (.finite .positive m e hm)) :
      0 < rankOf (.finite .positive m e hm) := (bits_bounds h.1 hm h.2).1
  have hneg {m : ℕ} {e : ℤ} {hm : 0 < m} (h : IsSingle (.finite .negative m e hm)) :
      rankOf (.finite .negative m e hm) < 0 := Int.neg_neg_of_pos (bits_bounds h.1 hm h.2).1
  -- signs decide unless they are equal, and then the bits without them do
  cases u with
  | infinity | notANumber => cases hfu
  | zero s =>
    cases v with
    | infinity | notANumber => cases hfv
    | zero s' => exact congrArg some (compare_eq_iff_eq.2 rfl).symm
    | finite s' m' e' hm' =>
      cases s' with
      | negative => exact congrArg some (compare_gt_iff_gt.2 (hneg hv)).symm
      | positive => exact congrArg some (compare_lt_iff_lt.2 (hpos hv)).symm
  | finite s m e hm =>
    cases v with
    | infinity | notANumber => cases hfv
    | zero s' =>
      cases s with
      | negative => exact congrArg some (compare_lt_iff_lt.2 (hneg hu)).symm
      | positive => exact congrArg some (compare_gt_iff_gt.2 (hpos hu)).symm
    | finite s' m' e' hm' =>
      have hsame := compare_bits hu.1 hv.1
      cases s with
      | negative =>
        cases s' with
        | negative =>
          show some ((compare e e').then (compare m m')).swap =
            some (compare (-((e + 149) * 0x800000 + (m : ℤ))) (-((e' + 149) * 0x800000 + (m' : ℤ))))
          rw [hsame, compare_neg_neg]
        | positive =>
          exact congrArg some (compare_lt_iff_lt.2 ((hneg hu).trans (hpos hv))).symm
      | positive =>
        cases s' with
        | negative =>
          exact congrArg some (compare_gt_iff_gt.2 ((hneg hv).trans (hpos hu))).symm
        | positive => exact congrArg some hsame

/-- **Numbers are compared by their ranks.** -/
theorem compare_rankOf {u v : UnpackedFloat} (hu : IsSingle u) (hv : IsSingle v)
    (hnu : u.isNaN = false) (hnv : v.isNaN = false) :
    UnpackedFloat.compare u v = some (compare (rankOf u) (rankOf v)) := by
  cases u with
  | notANumber => cases hnu
  | infinity s =>
    cases v with
    | notANumber => cases hnv
    | infinity s' => cases s <;> cases s' <;> rfl
    | zero | finite => exact (compare_infinity s hv rfl).1
  | zero | finite =>
    cases v with
    | notANumber => cases hnv
    | infinity s' => exact (compare_infinity s' hu rfl).2
    | zero | finite => exact compare_finite hu hv rfl rfl

/-- The rank of fields which are not those of a NaN. -/
theorem rankOf_ofFields (s : Sign) {e f : ℕ} (hnan : e = 255 → f = 0) :
    rankOf (ofFields s e f) = s.apply (e * 0x800000 + f) := by
  have hmantissa (m : ℕ) (g : ℤ) (h : m = 0 → g = -149) :
      rankOf (signedMantissa s m g) = s.apply ((g + 149) * 0x800000 + m) := by
    rcases m.eq_zero_or_pos with hm | hm
    · rw [hm, h hm]
      cases s <;> rfl
    · rw [signedMantissa_pos s g hm]
      rfl
  unfold ofFields
  by_cases h255 : e = 255
  · rw [if_pos h255, if_pos (hnan h255), h255, hnan h255]
    rfl
  · rw [if_neg h255]
    by_cases h0 : e = 0
    · rw [if_pos h0, hmantissa _ _ fun _ => rfl, h0]
      rfl
    · rw [if_neg h0, hmantissa _ _ (by omega)]
      congr 1
      push_cast
      ring

namespace Scalar

/-- The place of a number among all numbers: its bits without the sign bit, with
    its sign. -/
def rank (x : Scalar) : ℤ := (signOf x.isNegative).apply (x.biasedExponent * 0x800000 + x.fractionField)

/-- The exponent of a NaN has a fraction. -/
theorem fractionField_of_not_nan {x : Scalar} (h : isNaN x = false) (he : x.biasedExponent = 255) :
    x.fractionField = 0 := by
  unfold isNaN at h
  simpa [he] using h

theorem rank_eq {x : Scalar} (h : isNaN x = false) : x.rank = rankOf x.unpacked := by
  rw [x.unpacked_eq, rankOf_ofFields _ (fractionField_of_not_nan h)]
  rfl

/-- **The order of numbers is that of their ranks.** -/
theorem le_iff_rank {a b : Scalar} (ha : isNaN a = false) (hb : isNaN b = false) :
    a ≤ b ↔ a.rank ≤ b.rank := by
  rw [rank_eq ha, rank_eq hb]
  rw [isNaN_eq] at ha hb
  rw [le_iff_compare, compare_rankOf a.isSingle b.isSingle ha hb]
  exact Ordering.ne_gt_iff_isLE.symm.trans compare_le_iff_le

/-- A NaN is in no order. -/
theorem not_nan_of_le {a b : Scalar} (h : a ≤ b) : isNaN a = false ∧ isNaN b = false := by
  rw [le_iff_compare] at h
  rw [isNaN_eq, isNaN_eq]
  generalize a.unpacked = u at h
  generalize b.unpacked = v at h
  cases u with
  | notANumber => cases h
  | zero | infinity | finite =>
    cases v with
    | notANumber => cases h
    | zero | infinity | finite => exact ⟨rfl, rfl⟩

end Scalar

/-! ## §2. Rounding keeps the order. -/

/-- Numbers of 24 bits are apart by more than rounding between them can be off. -/
theorem Short.gap {s r : ℚ} (hs : Short s) (hr : Short r) (hpos : 0 ≤ s) (hlt : s < r) :
    s / 2 ^ 24 < r - s ∧ 2 ^ (-149 : ℤ) ≤ r - s := by
  obtain ⟨k, f, hk, hf, rfl⟩ := hs
  obtain ⟨l, g, hl, hg, rfl⟩ := hr
  have hkq : (k : ℚ) < 2 ^ 24 := by exact_mod_cast (abs_lt.1 hk).2
  have hlq : (l : ℚ) < 2 ^ 24 := by exact_mod_cast (abs_lt.1 hl).2
  -- both are multiples of the smaller power of two, hence one of it apart
  have hmultiple (n : ℤ) {e : ℤ} (he : min f g ≤ e) :
      (n : ℚ) * 2 ^ e = ((n * 2 ^ (e - min f g).toNat : ℤ) : ℚ) * 2 ^ min f g := by
    push_cast
    rw [mul_assoc, ← zpow_natCast, ← zpow_add₀ (by norm_num)]
    congr 2
    omega
  have hstep : (2 : ℚ) ^ min f g ≤ l * 2 ^ g - k * 2 ^ f := by
    rw [hmultiple l (min_le_right f g), hmultiple k (min_le_left f g)] at hlt ⊢
    generalize k * 2 ^ (f - min f g).toNat = k' at hlt ⊢
    generalize l * 2 ^ (g - min f g).toNat = l' at hlt ⊢
    have hint : k' + 1 ≤ l' := by exact_mod_cast lt_of_mul_lt_mul_right hlt (by positivity)
    have hcast : (k' : ℚ) + 1 ≤ l' := by exact_mod_cast hint
    calc (2 : ℚ) ^ min f g = 1 * 2 ^ min f g := (one_mul _).symm
      _ ≤ (l' - k') * 2 ^ min f g := by gcongr; linarith
      _ = l' * 2 ^ min f g - k' * 2 ^ min f g := sub_mul _ _ _
  have hsmall : (k : ℚ) * 2 ^ f < 2 ^ 24 * 2 ^ min f g := by
    rcases le_total f g with h | h
    · rw [min_eq_left h]
      gcongr
    · rw [min_eq_right h]
      exact hlt.trans (by gcongr)
  have hleast : (2 : ℚ) ^ (-149 : ℤ) ≤ 2 ^ min f g := zpow_le_zpow_right₀ (by norm_num) (le_min hf hg)
  refine ⟨lt_of_lt_of_le ?_ hstep, hleast.trans hstep⟩
  rw [div_lt_iff₀ (by norm_num)]
  exact hsmall.trans_eq (mul_comm _ _)

namespace Rounds

variable {x r s : ℚ}

/-- **Rounding does not pass a number of 24 bits.** -/
theorem le_of_short (h : Rounds x r) (hr : Short r) (hs : Short s) (hx : 0 ≤ x) (hxs : x ≤ s) : r ≤ s := by
  rcases hxs.eq_or_lt with rfl | hlt
  · exact (h.exact hs).le
  · by_contra hpassed
    obtain ⟨hfar, hleast⟩ := hs.gap hr (hx.trans hxs) (lt_of_not_ge hpassed)
    have hself := le_abs_self (r - x)
    rcases h.error with herror | ⟨-, herror⟩
    · rw [abs_of_nonneg hx] at herror
      have : x / 2 ^ 24 ≤ s / 2 ^ 24 := by gcongr
      linarith
    · have : (2 : ℚ) ^ (-150 : ℤ) < 2 ^ (-149 : ℤ) := zpow_lt_zpow_right₀ (by norm_num) (by norm_num)
      linarith

/-- Rounding does not pass zero. -/
theorem nonneg (h : Rounds x r) (hr : Short r) (hx : 0 ≤ x) : 0 ≤ r := by
  by_contra hnegative
  have hzero : Short (0 : ℚ) := by exact_mod_cast Short.ofInt (k := 0) (by norm_num)
  obtain ⟨-, hleast⟩ := hzero.gap hr.neg le_rfl (by linarith)
  have hself := neg_abs_le (r - x)
  rcases h.error with herror | ⟨-, herror⟩
  · rw [abs_of_nonneg hx] at herror
    have : x / 2 ^ 24 ≤ x := div_le_self hx (by norm_num)
    linarith
  · have : (2 : ℚ) ^ (-150 : ℤ) < 2 ^ (-149 : ℤ) := zpow_lt_zpow_right₀ (by norm_num) (by norm_num)
    linarith

end Rounds

end VectorIcon

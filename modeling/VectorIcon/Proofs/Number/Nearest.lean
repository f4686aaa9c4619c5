/-
  VectorIcon.Proofs.Number.Nearest
  ────────────────────────────────
  **ROUNDING TO SINGLE PRECISION, SEEN FROM THE RATIONALS.**

  Arithmetic cuts a mantissa and keeps two bits of what it drops.  `Describes`
  says which number a mantissa with these bits stands for; cutting one more bit
  halves the number (`Describes.shiftRightOne`), and rounding at the end is off
  by at most one half (`Describes.rounded_near`).  What follows for a single
  precision number is `Rounds x r`:

      exact   — a number of 24 bits is not changed
      error   — any other one changes by at most the 2^-24th part of it; near
                zero, where the spacing no longer shrinks, by at most 2^-150
-/
import Mathlib.Algebra.Order.Field.Basic
import Mathlib.Algebra.Order.Field.Power
import Mathlib.Data.Rat.Cast.Order
import Mathlib.Tactic.FieldSimp
import Mathlib.Tactic.Linarith
import Mathlib.Tactic.NormNum
import Mathlib.Tactic.Positivity
import Mathlib.Tactic.Push
import Mathlib.Tactic.Ring

namespace VectorIcon

open Float.Model Float.Model.UnpackedFloat

/-! ## §1. Mantissas with dropped bits. -/

section Halves

variable {d r : ℕ}

/-- A quotient is its integral part and what the remainder adds. -/
theorem div_eq_add_remainder (n : ℕ) (hd : 0 < d) : (n / d : ℚ) = (n / d : ℕ) + (n % d : ℕ) / d := by
  have hdq : (0 : ℚ) < d := by exact_mod_cast hd
  have hn : (n : ℚ) = d * (n / d : ℕ) + (n % d : ℕ) := by exact_mod_cast (Nat.div_add_mod n d).symm
  rw [hn]
  field_simp

theorem div_lt_half_iff (hd : 0 < d) : (r / d : ℚ) < 1 / 2 ↔ 2 * r < d := by
  have hdq : (0 : ℚ) < d := by exact_mod_cast hd
  rw [div_lt_div_iff₀ hdq (by norm_num), mul_comm, one_mul]
  exact_mod_cast Iff.rfl

theorem half_lt_div_iff (hd : 0 < d) : 1 / 2 < (r / d : ℚ) ↔ d < 2 * r := by
  have hdq : (0 : ℚ) < d := by exact_mod_cast hd
  rw [div_lt_div_iff₀ (by norm_num) hdq, one_mul, mul_comm (r : ℚ)]
  exact_mod_cast Iff.rfl

theorem div_eq_half_iff (hd : 0 < d) : (r / d : ℚ) = 1 / 2 ↔ 2 * r = d := by
  have hdq : (d : ℚ) ≠ 0 := by exact_mod_cast hd.ne'
  rw [div_eq_div_iff hdq (by norm_num), one_mul, mul_comm]
  exact_mod_cast Iff.rfl

/-- The even one of a number and its successor. -/
theorem even_neighbour (m : ℕ) :
    ((m + m % 2 : ℕ) : ℚ) = m ∨ ((m + m % 2 : ℕ) : ℚ) = m + 1 := by
  rcases Nat.mod_two_eq_zero_or_one m with hm | hm
  · left
    rw [hm, add_zero]
  · right
    rw [hm]
    push_cast
    rfl

end Halves

/-- The number which a mantissa and the two bits kept of what was dropped stand
    for: the round bit tells whether at least a half was dropped, the sticky bit
    whether it was neither nothing nor a half. -/
structure Describes (em : ExtendedMantissa) (x : ℚ) : Prop where
  floor_le : (em.mantissa : ℚ) ≤ x
  lt_succ : x < em.mantissa + 1
  round : em.roundBit = true ↔ (em.mantissa : ℚ) + 1 / 2 ≤ x
  sticky : em.stickyBit = false ↔ x = em.mantissa ∨ x = em.mantissa + 1 / 2

namespace Describes

/-- A fraction above the mantissa, with the two bits which are kept of it. -/
theorem ofFraction (m : ℕ) {r s : Bool} {f : ℚ} (h0 : 0 ≤ f) (h1 : f < 1)
    (hr : r = true ↔ 1 / 2 ≤ f) (hs : s = false ↔ f = 0 ∨ f = 1 / 2) :
    Describes ⟨m, r, s⟩ (m + f) where
  floor_le := by
    show (m : ℚ) ≤ m + f
    linarith
  lt_succ := by
    show (m : ℚ) + f < m + 1
    linarith
  round := by
    show r = true ↔ (m : ℚ) + 1 / 2 ≤ m + f
    rw [hr, add_le_add_iff_left]
  sticky := by
    show s = false ↔ (m : ℚ) + f = m ∨ (m : ℚ) + f = m + 1 / 2
    rw [hs, add_eq_left, add_right_inj]

/-- Nothing was dropped. -/
theorem exact (m : ℕ) : Describes (.ofMantissaAndAccuracy m .exact) m := by
  have h := ofFraction m (r := false) (s := false) (f := 0) (by norm_num) (by norm_num)
    (by norm_num) (by norm_num)
  rwa [add_zero] at h

/-- The integer quotient, with the remainder as what was dropped. -/
theorem quotient (n : ℕ) {d : ℕ} (hd : 0 < d) :
    Describes (.ofMantissaAndAccuracy (n / d) (accuracyOfFraction (n % d) d)) (n / d : ℚ) := by
  have hdq : (0 : ℚ) < d := by exact_mod_cast hd
  have hr : n % d < d := Nat.mod_lt n hd
  rw [div_eq_add_remainder n hd]
  generalize n / d = q
  generalize n % d = r at hr ⊢
  have hrq : (r : ℚ) < d := by exact_mod_cast hr
  have hlt : (r / d : ℚ) < 1 := by rwa [div_lt_one hdq]
  have hnonneg : (0 : ℚ) ≤ r / d := by positivity
  unfold accuracyOfFraction
  by_cases hzero : r = 0
  · rw [if_pos hzero, hzero, Nat.cast_zero, zero_div, add_zero]
    exact exact q
  · rw [if_neg hzero]
    have hpos : (0 : ℚ) < r / d := by
      have : (0 : ℚ) < r := by exact_mod_cast Nat.pos_of_ne_zero hzero
      positivity
    -- which bits are kept depends on the place of the fraction relative to one half
    rcases Nat.lt_trichotomy (2 * r) d with h | h | h
    · have hhalf : (r / d : ℚ) < 1 / 2 := (div_lt_half_iff hd).2 h
      rw [Nat.compare_eq_lt.2 h]
      refine ofFraction q hnonneg hlt ⟨nofun, fun h => absurd h hhalf.not_ge⟩ ⟨nofun, ?_⟩
      rintro (h | h) <;> linarith
    · have hhalf : (r / d : ℚ) = 1 / 2 := (div_eq_half_iff hd).2 h
      rw [Nat.compare_eq_eq.2 h]
      exact ofFraction q hnonneg hlt ⟨fun _ => hhalf.ge, fun _ => rfl⟩
        ⟨fun _ => .inr hhalf, fun _ => rfl⟩
    · have hhalf : 1 / 2 < (r / d : ℚ) := (half_lt_div_iff hd).2 h
      rw [Nat.compare_eq_gt.2 h]
      refine ofFraction q hnonneg hlt ⟨fun _ => hhalf.le, fun _ => rfl⟩ ⟨nofun, ?_⟩
      rintro (h | h) <;> linarith

/-- **Rounding is off by at most one half.** -/
theorem rounded_near {em : ExtendedMantissa} {x : ℚ} (h : Describes em x) :
    |(em.roundedMantissa : ℚ) - x| ≤ 1 / 2 := by
  obtain ⟨m, r, s⟩ := em
  obtain ⟨hfloor, hsucc, hround, hsticky⟩ := h
  simp only at hfloor hsucc hround hsticky
  rw [abs_le]
  cases r with
  | false =>
    have hlow : ¬ (m : ℚ) + 1 / 2 ≤ x := fun h => Bool.false_ne_true (hround.2 h)
    cases s <;> (show -(1 / 2) ≤ (m : ℚ) - x ∧ (m : ℚ) - x ≤ 1 / 2; constructor <;> linarith)
  | true =>
    have hhigh := hround.1 rfl
    cases s with
    | false =>
      -- exactly one half was dropped, the even neighbour is as near as the other
      have hx : x = m + 1 / 2 := (hsticky.1 rfl).resolve_left (by intro h; linarith)
      show -(1 / 2) ≤ ((m + m % 2 : ℕ) : ℚ) - x ∧ ((m + m % 2 : ℕ) : ℚ) - x ≤ 1 / 2
      rcases even_neighbour m with hup | hup <;> rw [hup, hx] <;> constructor <;> linarith
    | true =>
      show -(1 / 2) ≤ ((m + 1 : ℕ) : ℚ) - x ∧ ((m + 1 : ℕ) : ℚ) - x ≤ 1 / 2
      push_cast
      constructor <;> linarith

/-- **One more bit is dropped.** -/
theorem shiftRightOne {em : ExtendedMantissa} {x : ℚ} (h : Describes em x) :
    Describes em.shiftRightOne (x / 2) := by
  obtain ⟨m, r, s⟩ := em
  obtain ⟨hfloor, hsucc, hround, hsticky⟩ := h
  simp only at hfloor hsucc hround hsticky
  -- the lowest bit of the mantissa becomes the round bit
  have hm : (m : ℚ) = 2 * (m / 2 : ℕ) + (m % 2 : ℕ) := by exact_mod_cast (Nat.div_add_mod m 2).symm
  have hbit : (m % 2 != 0) = true ↔ ((m % 2 : ℕ) : ℚ) = 1 := by
    rcases Nat.mod_two_eq_zero_or_one m with h | h <;> rw [h] <;> simp
  have hbit' : ((m % 2 : ℕ) : ℚ) = 0 ∨ ((m % 2 : ℕ) : ℚ) = 1 := by
    rcases Nat.mod_two_eq_zero_or_one m with h | h <;> rw [h] <;> simp
  -- the old bits go into the sticky bit, which tells whether anything was dropped
  have hexact : (r || s) = false ↔ x = m := by
    rw [Bool.or_eq_false_iff]
    constructor
    · rintro ⟨hr, hs⟩
      refine (hsticky.1 hs).resolve_right fun hx => ?_
      rw [hround.2 hx.ge] at hr
      cases hr
    · intro hx
      refine ⟨Bool.eq_false_iff.2 fun hr => ?_, hsticky.2 (.inl hx)⟩
      have := hround.1 hr
      linarith
  refine ⟨?_, ?_, ?_, ?_⟩
  · show ((m / 2 : ℕ) : ℚ) ≤ x / 2
    rcases hbit' with h | h <;> linarith
  · show x / 2 < ((m / 2 : ℕ) : ℚ) + 1
    rcases hbit' with h | h <;> linarith
  · show (m % 2 != 0) = true ↔ ((m / 2 : ℕ) : ℚ) + 1 / 2 ≤ x / 2
    rw [hbit]
    constructor
    · intro h; linarith
    · intro h
      exact hbit'.resolve_left fun h0 => by linarith
  · show (r || s) = false ↔ x / 2 = ((m / 2 : ℕ) : ℚ) ∨ x / 2 = ((m / 2 : ℕ) : ℚ) + 1 / 2
    rw [hexact]
    constructor
    · intro hx
      rcases hbit' with h | h
      · left; linarith
      · right; linarith
    · rintro (hx | hx) <;> rcases hbit' with h | h <;> linarith

/-- Any number of bits is dropped. -/
theorem shiftRight {em : ExtendedMantissa} {x : ℚ} (h : Describes em x) (k : ℕ) :
    Describes (em >>> k) (x / 2 ^ k) := by
  show Describes (k.repeat ExtendedMantissa.shiftRightOne em) _
  -- the induction is on the bits: each of them halves what is described
  induction k with
  | zero =>
    rw [pow_zero, div_one]
    exact h
  | succ k ih =>
    rw [pow_succ, ← div_div]
    exact ih.shiftRightOne

end Describes

/-! ## §2. Numbers of 24 bits. -/

/-- The number has at most 24 bits, none of them below `2^-149`. -/
def Short (x : ℚ) : Prop := ∃ k f : ℤ, |k| < 2 ^ 24 ∧ -149 ≤ f ∧ x = k * 2 ^ f

theorem Short.neg {x : ℚ} (h : Short x) : Short (-x) := by
  obtain ⟨k, f, hk, hf, rfl⟩ := h
  refine ⟨-k, f, by rwa [abs_neg], hf, ?_⟩
  push_cast
  ring

theorem Short.double {x : ℚ} (h : Short x) : Short (2 * x) := by
  obtain ⟨k, f, hk, hf, rfl⟩ := h
  refine ⟨k, f + 1, hk, by omega, ?_⟩
  rw [zpow_add_one₀ (by norm_num)]
  ring

theorem Short.ofInt {k : ℤ} (h : |k| < 2 ^ 24) : Short k := ⟨k, 0, h, by norm_num, by simp⟩

/-- `r` is `x` rounded to single precision, the range of exponents aside. -/
structure Rounds (x r : ℚ) : Prop where
  exact : Short x → r = x
  error : |r - x| ≤ |x| / 2 ^ 24 ∨ |x| < 2 ^ (-126 : ℤ) ∧ |r - x| ≤ 2 ^ (-150 : ℤ)

namespace Rounds

variable {x r : ℚ}

theorem refl (x : ℚ) : Rounds x x where
  exact _ := rfl
  error := .inl (by rw [sub_self, abs_zero]; positivity)

theorem neg (h : Rounds x r) : Rounds (-x) (-r) := by
  have hdiff : |-r - -x| = |r - x| := by
    rw [show -r - -x = -(r - x) by ring, abs_neg]
  refine ⟨fun hx => ?_, ?_⟩
  · have hx' := hx.neg
    rw [neg_neg] at hx'
    rw [h.exact hx']
  · rw [hdiff, abs_neg]
    exact h.error

theorem error_le (h : Rounds x r) : |r - x| ≤ |x| / 2 ^ 24 + 2 ^ (-150 : ℤ) := by
  have h1 : (0 : ℚ) ≤ |x| / 2 ^ 24 := by positivity
  have h2 : (0 : ℚ) < 2 ^ (-150 : ℤ) := by positivity
  rcases h.error with h | ⟨-, h⟩
  · exact le_add_of_le_of_nonneg h h2.le
  · exact le_add_of_nonneg_of_le h1 h

/-- What is a multiple of the least spacing has no error of its own near zero. -/
theorem relative (h : Rounds x r) (hx : ∃ k : ℤ, x = k * 2 ^ (-149 : ℤ)) : |r - x| ≤ |x| / 2 ^ 24 := by
  rcases h.error with herror | ⟨hsmall, -⟩
  · exact herror
  · obtain ⟨k, hk⟩ := hx
    have hshort : Short x := by
      refine ⟨k, -149, ?_, le_refl _, hk⟩
      have hpos : (0 : ℚ) < 2 ^ (-149 : ℤ) := by positivity
      rw [hk, abs_mul, abs_of_pos hpos] at hsmall
      -- such a multiple has few bits, so it is not rounded at all
      have hlt : |(k : ℚ)| < 2 ^ 23 := by
        have hsplit : (2 : ℚ) ^ (-126 : ℤ) = 2 ^ 23 * 2 ^ (-149 : ℤ) := by
          rw [← zpow_natCast, ← zpow_add₀ (by norm_num)]
          norm_num
        rw [hsplit] at hsmall
        exact lt_of_mul_lt_mul_right hsmall hpos.le
      have : |k| < 2 ^ 23 := by exact_mod_cast hlt
      linarith
    rw [h.exact hshort, sub_self, abs_zero]
    positivity

/-- **The nearest multiple of the right power of two is the rounded number.** -/
theorem of_near {m : ℕ} {e : ℤ} (hx : 0 ≤ x) (he : -149 ≤ e) (hnormal : e = -149 ∨ 2 ^ (e + 23) ≤ x)
    (hnear : |(m : ℚ) - x / 2 ^ e| ≤ 1 / 2) : Rounds x (m * 2 ^ e) := by
  have hpow : (0 : ℚ) < 2 ^ e := by positivity
  have hdiff : |(m : ℚ) * 2 ^ e - x| ≤ 2 ^ e / 2 := by
    have hfactor : (m : ℚ) * 2 ^ e - x = (m - x / 2 ^ e) * 2 ^ e := by
      field_simp
    rw [hfactor, abs_mul, abs_of_pos hpow]
    calc |(m : ℚ) - x / 2 ^ e| * 2 ^ e ≤ 1 / 2 * 2 ^ e := by gcongr
      _ = 2 ^ e / 2 := by ring
  refine ⟨fun hshort => ?_, ?_⟩
  · -- a short number is a multiple of the spacing
    obtain ⟨k, f, hk, hf, hxk⟩ := hshort
    have hef : e ≤ f := by
      rcases hnormal with rfl | hnormal
      · exact hf
      · have hk' : (k : ℚ) < 2 ^ 24 := by exact_mod_cast lt_of_le_of_lt (le_abs_self k) hk
        have hlt : (2 : ℚ) ^ (e + 23) < 2 ^ (24 + f) := by
          calc (2 : ℚ) ^ (e + 23) ≤ k * 2 ^ f := by rwa [← hxk]
            _ < 2 ^ 24 * 2 ^ f := by gcongr
            _ = 2 ^ (24 + f) := by rw [zpow_add₀ (by norm_num)]; norm_num
        have := (zpow_lt_zpow_iff_right₀ (by norm_num : (1 : ℚ) < 2)).1 hlt
        omega
    -- two integers less than one apart are equal
    have hmultiple : x / 2 ^ e = (k * 2 ^ (f - e).toNat : ℤ) := by
      rw [hxk, div_eq_iff hpow.ne']
      push_cast
      rw [← zpow_natCast, Int.toNat_of_nonneg (by omega), mul_assoc, ← zpow_add₀ (by norm_num)]
      congr 2
      omega
    have heq : (m : ℤ) = k * 2 ^ (f - e).toNat := by
      rw [hmultiple] at hnear
      have hcast : |(((m : ℤ) - k * 2 ^ (f - e).toNat : ℤ) : ℚ)| < 1 := by
        push_cast at hnear ⊢
        linarith
      have hint : |(m : ℤ) - k * 2 ^ (f - e).toNat| < 1 := by exact_mod_cast hcast
      have := Int.abs_lt_one_iff.1 hint
      omega
    have hmx : (m : ℚ) = x / 2 ^ e := by
      rw [hmultiple, ← heq]
      rfl
    rw [hmx]
    field_simp
  · rw [abs_of_nonneg hx]
    -- half a spacing is small relative to a number of full width, else it is 2^-150
    have hhalf : (2 : ℚ) ^ e / 2 = 2 ^ (e + 23) / 2 ^ 24 := by
      rw [zpow_add₀ (by norm_num)]
      norm_num
      ring
    by_cases hbig : (2 : ℚ) ^ (e + 23) ≤ x
    · left
      calc |(m : ℚ) * 2 ^ e - x| ≤ 2 ^ e / 2 := hdiff
        _ = 2 ^ (e + 23) / 2 ^ 24 := hhalf
        _ ≤ x / 2 ^ 24 := by gcongr
    · right
      obtain rfl : e = -149 := hnormal.resolve_right hbig
      refine ⟨lt_of_not_ge hbig, ?_⟩
      calc |(m : ℚ) * 2 ^ (-149 : ℤ) - x| ≤ 2 ^ (-149 : ℤ) / 2 := hdiff
        _ = 2 ^ (-150 : ℤ) := by
          rw [show (-149 : ℤ) = -150 + 1 by norm_num, zpow_add₀ (by norm_num)]
          norm_num

end Rounds

/-! ## §3. Mantissas of single precision. -/

/-- Mantissa and exponent are those of single precision, up to the greatest
    exponent: 24 bits, all of them used unless the exponent is the least one. -/
structure Fits (m : ℕ) (e : ℤ) : Prop where
  mantissa_lt : m < 2 ^ 24
  exponent_ge : -149 ≤ e
  normal : 2 ^ 23 ≤ m ∨ e = -149

/-- The nearest multiple fits, unless it was rounded up to one more bit. -/
theorem Fits.of_near {x : ℚ} {m : ℕ} {e : ℤ} (he : -149 ≤ e) (hnormal : e = -149 ∨ 2 ^ (e + 23) ≤ x)
    (hupper : x < 2 ^ (e + 24)) (hnear : |(m : ℚ) - x / 2 ^ e| ≤ 1 / 2) : Fits m e ∨ m = 2 ^ 24 := by
  have hpow : (0 : ℚ) < 2 ^ e := by positivity
  have hhigh : x / 2 ^ e < 2 ^ 24 := by
    rw [div_lt_iff₀ hpow]
    calc x < 2 ^ (e + 24) := hupper
      _ = 2 ^ 24 * 2 ^ e := by
          rw [zpow_add₀ (by norm_num), mul_comm]
          norm_num
  -- rounding up can reach the next power of two but not pass it
  have hm : m ≤ 2 ^ 24 := by
    have hlt : (m : ℚ) < (2 ^ 24 + 1 : ℕ) := by
      have := (abs_le.1 hnear).2
      push_cast
      linarith
    have : m < 2 ^ 24 + 1 := by exact_mod_cast hlt
    omega
  rcases Nat.lt_or_eq_of_le hm with hlt | heq
  · refine .inl ⟨hlt, he, ?_⟩
    rcases hnormal with h | h
    · exact .inr h
    · left
      have hlow : (2 : ℚ) ^ 23 ≤ x / 2 ^ e := by
        rw [le_div_iff₀ hpow]
        calc (2 : ℚ) ^ 23 * 2 ^ e = 2 ^ (e + 23) := by
              rw [zpow_add₀ (by norm_num), mul_comm]
              norm_num
          _ ≤ x := h
      have hgt : ((2 ^ 23 : ℕ) : ℚ) < (m + 1 : ℕ) := by
        have := (abs_le.1 hnear).1
        push_cast
        linarith
      have : 2 ^ 23 < m + 1 := by exact_mod_cast hgt
      omega
  · exact .inr heq

/-- A mantissa which was rounded up to one more bit loses it again. -/
theorem Fits.carried {e : ℤ} (he : -149 ≤ e) :
    Fits (2 ^ 23) (e + 1) ∧ ((2 ^ 23 : ℕ) : ℚ) * 2 ^ (e + 1) = (2 ^ 24 : ℕ) * 2 ^ e := by
  refine ⟨⟨by norm_num, by omega, .inl le_rfl⟩, ?_⟩
  rw [zpow_add₀ (by norm_num)]
  push_cast
  ring

/-! ## §4. The core rounding function. -/

/-- A mantissa with a sign; a zero mantissa makes a zero. -/
def signedMantissa (s : Sign) (m : ℕ) (e : ℤ) : UnpackedFloat :=
  if h : m = 0 then .zero s else .finite s m e (Nat.pos_of_ne_zero h)

theorem signedMantissa_pos (s : Sign) {m : ℕ} (e : ℤ) (hm : 0 < m) :
    signedMantissa s m e = .finite s m e hm := dif_neg hm.ne'

theorem targetExponent_single (t : ℤ) : Format.binary32.targetExponent t = max (t - 24) (-149) := rfl

/-- A mantissa of at least as many bits as wanted is cut, never extended. -/
theorem shiftToTargetExponent_single {m : ℕ} {e : ℤ} (acc : Accuracy)
    (he : 23 ≤ m.log2 ∨ e ≤ -149) {x : ℚ} (hx : Describes (.ofMantissaAndAccuracy m acc) x) :
    ∃ em, shiftToTargetExponent .binary32 m e acc = (em, max (m.log2 + 1 + e - 24) (-149)) ∧
      Describes em (x * 2 ^ e / 2 ^ max (m.log2 + 1 + e - 24) (-149)) := by
  unfold shiftToTargetExponent shiftToExponent totalExponent
  simp only
  rw [targetExponent_single]
  generalize htarget : max ((m.log2 : ℤ) + 1 + e - 24) (-149) = target
  have hle : e ≤ target := by omega
  refine ⟨_, Prod.ext rfl ?_, ?_⟩
  · show e + ((target - e).toNat : ℤ) = target
    omega
  · have h := hx.shiftRight (target - e).toNat
    have hpow : x / 2 ^ (target - e).toNat = x * 2 ^ e / 2 ^ target := by
      rw [← zpow_natCast, Int.toNat_of_nonneg (by omega), zpow_sub₀ (by norm_num)]
      field_simp
    rwa [hpow] at h

/-- Mantissas which already fit are not shifted. -/
theorem shiftToTargetExponent_fitting {m : ℕ} {e : ℤ} (hm : m < 2 ^ 24) (he : -149 ≤ e) :
    shiftToTargetExponent .binary32 m e .exact = (⟨m, false, false⟩, e) := by
  have hlog : m.log2 ≤ 23 := by
    by_cases hzero : m = 0
    · rw [hzero]
      decide
    · exact Nat.lt_succ_iff.1 ((Nat.log2_lt hzero).2 hm)
  unfold shiftToTargetExponent shiftToExponent totalExponent
  simp only
  rw [targetExponent_single]
  have hzero : (max ((m.log2 : ℤ) + 1 + e - 24) (-149) - e).toNat = 0 := by omega
  rw [hzero]
  exact Prod.ext rfl (add_zero e)

/-- A mantissa which was rounded up to one more bit loses it again. -/
theorem shiftToTargetExponent_carried {e : ℤ} (he : -149 ≤ e) :
    shiftToTargetExponent .binary32 (2 ^ 24) e .exact = (⟨2 ^ 23, false, false⟩, e + 1) := by
  unfold shiftToTargetExponent shiftToExponent totalExponent
  simp only
  rw [targetExponent_single, Nat.log2_two_pow]
  have hone : (max (((24 : ℕ) : ℤ) + 1 + e - 24) (-149) - e).toNat = 1 := by omega
  rw [hone]
  rfl

/-- **The core function rounds**: its answer is the rounded number, in the
    mantissa and exponent of single precision. -/
theorem roundWithAccuracy_single {m : ℕ} {e : ℤ} {acc : Accuracy} (s : Sign)
    (he : 23 ≤ m.log2 ∨ e ≤ -149) {x : ℚ} (hx : Describes (.ofMantissaAndAccuracy m acc) x) :
    ∃ k f, roundWithAccuracy .binary32 s m e acc = signedMantissa s k f ∧ Fits k f ∧
      Rounds (x * 2 ^ e) (k * 2 ^ f) := by
  obtain ⟨em, hshift, hem⟩ := shiftToTargetExponent_single acc he hx
  -- the bits do not move the mantissa they belong to
  have hfloor : (m : ℚ) ≤ x := by
    have h := hx.floor_le
    cases acc with
    | exact => exact h
    | inexact o => cases o <;> exact h
  have hsucc : x < m + 1 := by
    have h := hx.lt_succ
    cases acc with
    | exact => exact h
    | inexact o => cases o <;> exact h
  generalize htarget : max ((m.log2 : ℤ) + 1 + e - 24) (-149) = target at hshift hem
  -- the mantissa is shifted once more in case it was carried into a 25th bit
  have hround : roundWithAccuracy .binary32 s m e acc =
      signedMantissa s (shiftToTargetExponent .binary32 em.roundedMantissa target .exact).1.mantissa
        (shiftToTargetExponent .binary32 em.roundedMantissa target .exact).2 := by
    unfold roundWithAccuracy signedMantissa
    rw [hshift]
  have hnear := hem.rounded_near
  generalize em.roundedMantissa = k at hround hnear
  have hpow : (0 : ℚ) < 2 ^ target := by positivity
  have hnonneg : 0 ≤ x * 2 ^ e := mul_nonneg (le_trans (Nat.cast_nonneg _) hfloor) (by positivity)
  -- the mantissa has its full width unless the exponent is the least one
  have hnormal : target = -149 ∨ 2 ^ (target + 23) ≤ x * 2 ^ e := by
    by_cases hleast : target = -149
    · exact .inl hleast
    · right
      have hlog : m ≠ 0 := by
        rintro rfl
        rw [Nat.log2_zero] at he htarget
        omega
      calc (2 : ℚ) ^ (target + 23) = (2 ^ m.log2 : ℕ) * 2 ^ e := by
            push_cast
            rw [← zpow_natCast, ← zpow_add₀ (by norm_num)]
            congr 1
            omega
        _ ≤ m * 2 ^ e := by
            gcongr
            exact_mod_cast Nat.log2_self_le hlog
        _ ≤ x * 2 ^ e := by gcongr
  have hupper : x * 2 ^ e < 2 ^ (target + 24) := by
    have hm : (m : ℚ) + 1 ≤ (2 ^ (m.log2 + 1) : ℕ) := by
      exact_mod_cast Nat.succ_le_of_lt Nat.lt_log2_self
    calc x * 2 ^ e < (2 ^ (m.log2 + 1) : ℕ) * 2 ^ e := by
          gcongr
          linarith
      _ = 2 ^ ((m.log2 : ℤ) + 1 + e) := by
          push_cast
          rw [← zpow_natCast, ← zpow_add₀ (by norm_num)]
          push_cast
          rfl
      _ ≤ 2 ^ (target + 24) := zpow_le_zpow_right₀ (by norm_num) (by omega)
  have hrounds : Rounds (x * 2 ^ e) (k * 2 ^ target) :=
    Rounds.of_near hnonneg (by omega) hnormal hnear
  rcases Fits.of_near (by omega) hnormal hupper hnear with hfits | rfl
  · rw [shiftToTargetExponent_fitting hfits.mantissa_lt hfits.exponent_ge] at hround
    exact ⟨k, target, hround, hfits, hrounds⟩
  · obtain ⟨hfits, hsame⟩ := Fits.carried (e := target) (by omega)
    rw [shiftToTargetExponent_carried (by omega)] at hround
    exact ⟨2 ^ 23, target + 1, hround, hfits, hsame ▸ hrounds⟩

/-- A shifted mantissa is as many bits longer. -/
theorem log2_shiftLeft {m : ℕ} (hm : m ≠ 0) (k : ℕ) : (m <<< k).log2 = m.log2 + k := by
  rw [Nat.shiftLeft_eq]
  induction k with
  | zero => rw [pow_zero, mul_one]; rfl
  | succ k ih =>
    rw [pow_succ, ← mul_assoc, mul_comm, Nat.log2_two_mul (by positivity), ih]
    rfl

/-- A mantissa of any length is rounded, after it was lengthened if need be. -/
theorem round_single (s : Sign) {m : ℕ} (hm : m ≠ 0) (e : ℤ) :
    ∃ k f, UnpackedFloat.round .binary32 s m e = signedMantissa s k f ∧ Fits k f ∧
      Rounds (m * 2 ^ e) (k * 2 ^ f) := by
  unfold UnpackedFloat.round decreaseExponent totalExponent
  simp only
  rw [targetExponent_single]
  generalize htarget : max ((m.log2 : ℤ) + 1 + e - 24) (-149) = target
  -- a short mantissa is lengthened to full width, a long one is left to the core function
  have hlong : 23 ≤ (m <<< (e - target).toNat).log2 ∨ e - ((e - target).toNat : ℤ) ≤ -149 := by
    rw [log2_shiftLeft hm]
    omega
  obtain ⟨k, f, hround, hfits, hrounds⟩ := roundWithAccuracy_single s hlong (Describes.exact _)
  refine ⟨k, f, hround, hfits, ?_⟩
  have hsame : ((m <<< (e - target).toNat : ℕ) : ℚ) * 2 ^ (e - ((e - target).toNat : ℤ)) = m * 2 ^ e := by
    rw [Nat.shiftLeft_eq]
    push_cast
    rw [← zpow_natCast, mul_assoc, ← zpow_add₀ (by norm_num)]
    congr 2
    omega
  rwa [hsame] at hrounds

/-- **A signed mantissa is rounded.** -/
theorem normalize_single (n e : ℤ) (zeroSign : Sign) :
    ∃ s k f, UnpackedFloat.normalize .binary32 n e zeroSign = signedMantissa s k f ∧ Fits k f ∧
      Rounds (n * 2 ^ e) (s.apply k * 2 ^ f) := by
  -- the sign is split off, only the magnitude is rounded
  rcases lt_trichotomy n 0 with h | rfl | h
  · obtain ⟨k, f, hround, hfits, hrounds⟩ := round_single .negative (m := (-n).toNat) (by omega) e
    refine ⟨.negative, k, f, ?_, hfits, ?_⟩
    · unfold UnpackedFloat.normalize
      rw [compare_lt_iff_lt.2 h]
      exact hround
    · have hn : (n : ℚ) * 2 ^ e = -(((-n).toNat : ℕ) * 2 ^ e) := by
        have : (((-n).toNat : ℕ) : ℚ) = ((-n : ℤ) : ℚ) := by
          exact_mod_cast congrArg (Int.cast (R := ℚ)) (Int.toNat_of_nonneg (by omega : 0 ≤ -n))
        rw [this]
        push_cast
        ring
      have hk : ((Sign.apply .negative k : ℤ) : ℚ) * 2 ^ f = -((k : ℚ) * 2 ^ f) := by
        show ((-(k : ℤ) : ℤ) : ℚ) * 2 ^ f = _
        push_cast
        ring
      rw [hn, hk]
      exact hrounds.neg
  · refine ⟨zeroSign, 0, -149, rfl, ⟨by norm_num, le_refl _, .inr rfl⟩, ?_⟩
    have hzero : ((Sign.apply zeroSign (0 : ℕ) : ℤ) : ℚ) = 0 := by cases zeroSign <;> rfl
    rw [hzero, Int.cast_zero, zero_mul, zero_mul]
    exact Rounds.refl 0
  · obtain ⟨k, f, hround, hfits, hrounds⟩ := round_single .positive (m := n.toNat) (by omega) e
    refine ⟨.positive, k, f, ?_, hfits, ?_⟩
    · unfold UnpackedFloat.normalize
      rw [compare_gt_iff_gt.2 h]
      exact hround
    · have hn : (n : ℚ) = (n.toNat : ℕ) := by
        exact_mod_cast congrArg (Int.cast (R := ℚ)) (Int.toNat_of_nonneg h.le).symm
      rw [hn]
      exact hrounds

end VectorIcon

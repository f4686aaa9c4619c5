/-
  VectorIcon.Proofs.Number.Threshold
  ────────────────────────────────
  **WHERE ROUNDING CHANGES.**

  A quotient is counted in units of a power of two which depends on its leading
  bit.  What rounding does to it can only change

      at a number with one more bit than the format has   (`round_uncrossed`)

  so two quotients with no such number between them are rounded alike.  A number
  of the format is the rounding of whatever is within a quarter of its unit
  (`round_of_near`), and what is rounded to it is within half of its unit
  (`round_half`).  A double is off by at most the 2^-53rd part (`double_round`).
-/
import VectorIcon.Proofs.Number.Decimal

namespace VectorIcon

/-- Naturals which are less than one apart are equal. -/
theorem natCast_inj_of_near {m k : ℕ} (h : |(m : ℚ) - k| < 1) : m = k := by
  have hint : |(m : ℤ) - k| < 1 := by exact_mod_cast h
  have := Int.abs_lt_one_iff.1 hint
  omega

namespace BinaryFormat

/-! ## §1. Units. -/

/-- The exponent of the unit in which a quotient is counted. -/
def unitExponent (f : BinaryFormat) (n d : ℕ) : ℤ :=
  max (leadingExponent n d - f.precision + 1) f.minExponent

/-- The unit of single precision. -/
theorem unitExponent_single (n d : ℕ) :
    single.unitExponent n d = max (leadingExponent n d - 23) (-149) := by
  show max (leadingExponent n d - ((24 : ℕ) : ℤ) + 1) (-149) = _
  omega

/-- A count which was rounded up to one more bit loses it again. -/
def carry (f : BinaryFormat) (m : ℕ) (e : ℤ) : Dyadic :=
  if m = 2 ^ f.precision then ⟨2 ^ (f.precision - 1), e + 1⟩ else ⟨m, e⟩

theorem round_eq (f : BinaryFormat) {n : ℕ} (d : ℕ) (hn : n ≠ 0) :
    f.round n d =
      if (f.carry (countUnits n d (f.unitExponent n d)) (f.unitExponent n d)).exponent ≤ f.maxExponent
      then some (f.carry (countUnits n d (f.unitExponent n d)) (f.unitExponent n d)) else none := by
  unfold round
  rw [if_neg hn]
  rfl

theorem carry_value {f : BinaryFormat} (hp : 0 < f.precision) (m : ℕ) (e : ℤ) :
    ((f.carry m e).mantissa : ℚ) * 2 ^ (f.carry m e).exponent = m * 2 ^ e := by
  unfold carry
  by_cases hm : m = 2 ^ f.precision
  · rw [if_pos hm, hm]
    obtain ⟨p, hp⟩ : ∃ p, f.precision = p + 1 := Nat.exists_eq_succ_of_ne_zero hp.ne'
    rw [hp, Nat.add_sub_cancel, zpow_add_one₀ (by norm_num)]
    push_cast
    ring
  · rw [if_neg hm]

theorem carry_exponent_le (f : BinaryFormat) (m : ℕ) (e : ℤ) : (f.carry m e).exponent ≤ e + 1 := by
  unfold carry
  split
  · exact le_rfl
  · show e ≤ e + 1
    omega

section Units

variable (f : BinaryFormat) {n d : ℕ} (hn : n ≠ 0) (hd : 0 < d)

include hn hd

/-- A quotient is below the greatest count of its units. -/
theorem lt_units : (n / d : ℚ) < 2 ^ (f.unitExponent n d + f.precision) := by
  obtain ⟨-, hhigh⟩ := leadingExponent_spec (Nat.pos_of_ne_zero hn) hd
  refine lt_of_lt_of_le hhigh (zpow_le_zpow_right₀ (by norm_num) ?_)
  unfold unitExponent
  omega

theorem countUnits_le : countUnits n d (f.unitExponent n d) ≤ 2 ^ f.precision := by
  have hpow : (0 : ℚ) < 2 ^ f.unitExponent n d := by positivity
  have hlt := lt_units f hn hd
  rw [zpow_add₀ (by norm_num), zpow_natCast, ← div_lt_iff₀' hpow] at hlt
  have hnear := (abs_le.1 (countUnits_near n hd (f.unitExponent n d))).2
  have : (countUnits n d (f.unitExponent n d) : ℚ) < (2 ^ f.precision + 1 : ℕ) := by
    push_cast
    linarith
  have : countUnits n d (f.unitExponent n d) < 2 ^ f.precision + 1 := by exact_mod_cast this
  omega

end Units

/-! ## §2. Between two quotients. -/

/-- **Quotients are rounded alike** if no number with one more bit than the format
    lies between them. -/
theorem round_uncrossed (f : BinaryFormat) {n d n' d' : ℕ} (hn : n ≠ 0) (hd : 0 < d) (hn' : n' ≠ 0)
    (hd' : 0 < d') (hle : (n / d : ℚ) ≤ n' / d')
    (hbetween : ∀ h < 2 ^ (f.precision + 1), ∀ g : ℤ,
      ¬ ((n / d : ℚ) ≤ (h : ℕ) * 2 ^ g ∧ ((h : ℕ) * 2 ^ g : ℚ) ≤ n' / d')) :
    f.round n d = f.round n' d' := by
  obtain ⟨hlow, hhigh⟩ := leadingExponent_spec (Nat.pos_of_ne_zero hn) hd
  obtain ⟨hlow', hhigh'⟩ := leadingExponent_spec (Nat.pos_of_ne_zero hn') hd'
  -- a power of two would be between quotients of different leading bits
  have hlead : leadingExponent n d = leadingExponent n' d' := by
    have h1 : leadingExponent n d < leadingExponent n' d' + 1 :=
      (zpow_lt_zpow_iff_right₀ (by norm_num : (1 : ℚ) < 2)).1
        (lt_of_le_of_lt (hlow.trans hle) hhigh')
    by_contra hne
    have h2 : (2 : ℚ) ^ (leadingExponent n d + 1) ≤ 2 ^ leadingExponent n' d' :=
      zpow_le_zpow_right₀ (by norm_num) (by omega)
    refine hbetween 1 (Nat.one_lt_two_pow (by omega)) (leadingExponent n' d') ?_
    rw [Nat.cast_one, one_mul]
    exact ⟨hhigh.le.trans h2, hlow'⟩
  have hunit : f.unitExponent n d = f.unitExponent n' d' := by
    unfold unitExponent
    rw [hlead]
  have hbound := countUnits_le f hn hd
  have hbound' := countUnits_le f hn' hd'
  have hnear := countUnits_near n hd (f.unitExponent n d)
  have hnear' := countUnits_near n' hd' (f.unitExponent n' d')
  rw [← hunit] at hbound' hnear'
  rw [round_eq f d hn, round_eq f d' hn', ← hunit]
  generalize f.unitExponent n d = e at *
  generalize countUnits n d e = m at *
  generalize countUnits n' d' e = m' at *
  have hpow : (0 : ℚ) < 2 ^ e := by positivity
  have hhalf : ∀ k : ℕ, ((2 * k + 1 : ℕ) : ℚ) * 2 ^ (e - 1) = (k + 1 / 2) * 2 ^ e := fun k => by
    rw [zpow_sub_one₀ (by norm_num)]
    push_cast
    ring
  rw [abs_le] at hnear hnear'
  -- of different counts, the half above the smaller one would be between
  suffices m = m' by rw [this]
  rcases lt_trichotomy m m' with hlt | heq | hgt
  · refine absurd ⟨?_, ?_⟩ (hbetween (2 * m + 1) (by rw [pow_succ]; omega) (e - 1)) <;> rw [hhalf]
    · rw [← div_le_iff₀ hpow]
      linarith [hnear.1]
    · rw [← le_div_iff₀ hpow]
      have : (m + 1 : ℚ) ≤ m' := by exact_mod_cast hlt
      linarith [hnear'.2]
  · exact heq
  · have hle' : (n / d : ℚ) / 2 ^ e ≤ n' / d' / 2 ^ e := by gcongr
    have hgt' : (m' + 1 : ℚ) ≤ m := by exact_mod_cast hgt
    refine absurd ⟨?_, ?_⟩ (hbetween (2 * m' + 1) (by rw [pow_succ]; omega) (e - 1)) <;> rw [hhalf]
    · rw [← div_le_iff₀ hpow]
      linarith [hnear'.1]
    · rw [← le_div_iff₀ hpow]
      linarith [hnear.2]

/-! ## §3. Near a number. -/

section Near

variable {n d : ℕ} (hn : n ≠ 0) (hd : 0 < d)

include hn hd

/-- **What is rounded to a number** is within half of its unit. -/
theorem round_half {r : Dyadic} (h : single.round n d = some r) :
    |(n / d : ℚ) - r.mantissa * 2 ^ r.exponent| ≤ 2 ^ r.exponent / 2 := by
  rw [round_eq single d hn] at h
  have hnear := countUnits_near n hd (single.unitExponent n d)
  generalize single.unitExponent n d = e at *
  generalize countUnits n d e = m at *
  have hpow : (0 : ℚ) < 2 ^ e := by positivity
  have hdistance : |(n / d : ℚ) - m * 2 ^ e| ≤ 2 ^ e / 2 := by
    have hfactor : (n / d : ℚ) - m * 2 ^ e = -(m - n / d / 2 ^ e) * 2 ^ e := by field_simp; ring
    rw [hfactor, abs_mul, abs_neg, abs_of_pos hpow]
    calc |(m : ℚ) - n / d / 2 ^ e| * 2 ^ e ≤ 1 / 2 * 2 ^ e := by gcongr
      _ = 2 ^ e / 2 := by ring
  split at h
  · obtain rfl : single.carry m e = r := Option.some.inj h
    rw [carry_value (by decide)]
    refine hdistance.trans ?_
    have hge : e ≤ (single.carry m e).exponent := by
      unfold carry
      split
      · show e ≤ e + 1
        omega
      · exact le_rfl
    gcongr
    norm_num
  · cases h

/-- The count of a quotient in its own unit. -/
theorem round_of_count {m : ℕ} {e : ℤ} (hm : m < 2 ^ 24) (he : e ≤ 104)
    (hunit : single.unitExponent n d = e) (hnear : |(m : ℚ) - n / d / 2 ^ e| < 1 / 2) :
    single.round n d = some ⟨m, e⟩ := by
  have hcount := countUnits_near n hd e
  have hsame : countUnits n d e = m := by
    refine natCast_inj_of_near (abs_lt.2 ?_)
    have hcount := abs_le.1 hcount
    have hnear := abs_lt.1 hnear
    constructor <;> linarith
  have hcarry : single.carry m e = ⟨m, e⟩ := if_neg (show ¬ m = 2 ^ 24 from hm.ne)
  rw [round_eq single d hn, hunit, hsame, hcarry]
  exact if_pos he

/-- The count of a quotient which reaches one more bit. -/
theorem round_of_carry {e : ℤ} (he : e ≤ 104) (hunit : single.unitExponent n d = e - 1)
    (hnear : |(2 ^ 24 : ℚ) - n / d / 2 ^ (e - 1)| < 1 / 2) :
    single.round n d = some ⟨2 ^ 23, e⟩ := by
  have hcount := countUnits_near n hd (e - 1)
  have hsame : countUnits n d (e - 1) = 2 ^ 24 := by
    refine natCast_inj_of_near (abs_lt.2 ?_)
    have hcount := abs_le.1 hcount
    have hnear := abs_lt.1 hnear
    push_cast
    constructor <;> linarith
  have hcarry : single.carry (2 ^ 24) (e - 1) = ⟨2 ^ 23, e⟩ := by
    unfold carry
    rw [if_pos (by rfl), sub_add_cancel]
    rfl
  rw [round_eq single d hn, hunit, hsame, hcarry]
  exact if_pos he

/-- **What is within a quarter of its unit** is rounded to a number. -/
theorem round_of_near {r : Dyadic} (hfits : Fits r.mantissa r.exponent) (he : r.exponent ≤ 104)
    (hnear : |(n / d : ℚ) - r.mantissa * 2 ^ r.exponent| < 2 ^ r.exponent / 4) :
    single.round n d = some r := by
  obtain ⟨m, e⟩ := r
  obtain ⟨hlt, hge, hnormal⟩ := hfits
  simp only at *
  have hpow : (0 : ℚ) < 2 ^ e := by positivity
  obtain ⟨hlow, hhigh⟩ := leadingExponent_spec (Nat.pos_of_ne_zero hn) hd
  have hlt' : (m : ℚ) + 1 ≤ 2 ^ 24 := by exact_mod_cast hlt
  -- counted in the unit of the number
  obtain ⟨y, hy⟩ : ∃ y : ℚ, y = n / d / 2 ^ e := ⟨_, rfl⟩
  have hx : (n / d : ℚ) = y * 2 ^ e := by rw [hy, div_mul_cancel₀ _ hpow.ne']
  rw [hx] at hlow hhigh hnear
  rw [← sub_mul, abs_mul, abs_of_pos hpow, div_eq_mul_one_div, mul_comm (2 ^ e : ℚ) (1 / 4)] at hnear
  have hquarter := abs_lt.1 (lt_of_mul_lt_mul_right hnear hpow.le)
  have leading_lt : ∀ k : ℤ, y < 2 ^ k → leadingExponent n d < k + e := fun k hk => by
    refine (zpow_lt_zpow_iff_right₀ (by norm_num : (1 : ℚ) < 2)).1 (lt_of_le_of_lt hlow ?_)
    rw [zpow_add₀ (by norm_num)]
    gcongr
  have lt_leading : ∀ k : ℤ, 2 ^ k ≤ y → k + e < leadingExponent n d + 1 := fun k hk => by
    refine (zpow_lt_zpow_iff_right₀ (by norm_num : (1 : ℚ) < 2)).1 (lt_of_le_of_lt ?_ hhigh)
    rw [zpow_add₀ (by norm_num)]
    gcongr
  have hupper := leading_lt 24 (by norm_num at hlt' ⊢; linarith)
  have hunit := unitExponent_single n d
  by_cases hfull : e = -149 ∨ (2 : ℚ) ^ (23 : ℤ) ≤ y
  · -- the unit is that of the number
    refine round_of_count hn hd hlt he ?_ ?_
    · rcases hfull with rfl | hfull
      · omega
      · have := lt_leading 23 hfull
        omega
    · rw [← hy, abs_sub_comm]
      exact abs_lt.2 ⟨by linarith, by linarith⟩
  · -- a little below a power of two the unit is half as great, and the count is carried
    obtain ⟨hleast, hsmall⟩ := not_or.1 hfull
    have hsmall := lt_of_not_ge hsmall
    have hbelow := leading_lt 23 hsmall
    norm_num at hsmall
    have hwide : 2 ^ 23 ≤ m := hnormal.resolve_right hleast
    obtain rfl : m = 2 ^ 23 := by
      have : (m : ℚ) < (2 ^ 23 + 1 : ℕ) := by
        push_cast
        linarith
      have : m < 2 ^ 23 + 1 := by exact_mod_cast this
      omega
    have hdouble : (n / d : ℚ) / 2 ^ (e - 1) = 2 * y := by
      rw [hx, zpow_sub_one₀ (by norm_num)]
      field_simp
    push_cast at hquarter
    have habove := lt_leading 22 (by norm_num at hquarter ⊢; linarith)
    refine round_of_carry hn hd he (by omega) ?_
    rw [hdouble]
    exact abs_lt.2 ⟨by linarith, by linarith⟩

end Near

/-! ## §4. Doubles. -/

/-- **A quotient is rounded to a double** nearly, and exactly if it has at most 53
    bits; the exponents of doubles do not matter in the range of single precision. -/
theorem double_round {n d : ℕ} (hd : 0 < d) (hlow : (2 : ℚ) ^ (-250 : ℤ) ≤ n / d)
    (hhigh : (n / d : ℚ) < 2 ^ (250 : ℤ)) :
    ∃ r, double.round n d = some r ∧
      |(r.mantissa * 2 ^ r.exponent : ℚ) - n / d| ≤ n / d / 2 ^ 53 ∧
      ∀ h < 2 ^ 53, ∀ g : ℤ, (n / d : ℚ) = (h : ℕ) * 2 ^ g →
        (r.mantissa * 2 ^ r.exponent : ℚ) = n / d := by
  have hn : n ≠ 0 := by
    rintro rfl
    have : (0 : ℚ) < 2 ^ (-250 : ℤ) := by positivity
    rw [Nat.cast_zero, zero_div] at hlow
    linarith
  obtain ⟨hle, hlt⟩ := leadingExponent_spec (Nat.pos_of_ne_zero hn) hd
  have hfloor : -250 < leadingExponent n d + 1 :=
    (zpow_lt_zpow_iff_right₀ (by norm_num : (1 : ℚ) < 2)).1 (lt_of_le_of_lt hlow hlt)
  have hceiling : leadingExponent n d < 250 :=
    (zpow_lt_zpow_iff_right₀ (by norm_num : (1 : ℚ) < 2)).1 (lt_of_le_of_lt hle hhigh)
  have hunit : double.unitExponent n d = leadingExponent n d - 52 := by
    show max (leadingExponent n d - ((53 : ℕ) : ℤ) + 1) (-1074) = _
    omega
  rw [round_eq double d hn, hunit]
  have hnear := countUnits_near n hd (leadingExponent n d - 52)
  obtain ⟨e, he⟩ : ∃ e, e = leadingExponent n d - 52 := ⟨_, rfl⟩
  rw [← he] at hnear ⊢
  rw [show leadingExponent n d = 52 + e by omega, zpow_add₀ (by norm_num)] at hle
  generalize countUnits n d e = m at *
  have hpow : (0 : ℚ) < 2 ^ e := by positivity
  have hexponent := carry_exponent_le double m e
  refine ⟨double.carry m e, if_pos (by show _ ≤ (971 : ℤ); omega), ?_, ?_⟩ <;>
    rw [carry_value (by decide)]
  · have hfactor : (m * 2 ^ e - n / d : ℚ) = (m - n / d / 2 ^ e) * 2 ^ e := by field_simp
    rw [hfactor, abs_mul, abs_of_pos hpow]
    calc |(m : ℚ) - n / d / 2 ^ e| * 2 ^ e ≤ 1 / 2 * 2 ^ e := by gcongr
      _ = 2 ^ (52 : ℤ) * 2 ^ e / 2 ^ 53 := by norm_num; ring
      _ ≤ n / d / 2 ^ 53 := by gcongr
  · -- few bits are a multiple of the unit, and the count is that multiple
    intro h hh g hvalue
    have hge : e ≤ g := by
      have : 52 + e < 53 + g := by
        refine (zpow_lt_zpow_iff_right₀ (by norm_num : (1 : ℚ) < 2)).1 ?_
        rw [zpow_add₀ (by norm_num), zpow_add₀ (by norm_num)]
        calc (2 : ℚ) ^ (52 : ℤ) * 2 ^ e ≤ h * 2 ^ g := by rwa [← hvalue]
          _ < 2 ^ (53 : ℤ) * 2 ^ g := by
            gcongr
            exact_mod_cast hh
      omega
    obtain ⟨k, hk⟩ := Int.le.dest hge
    have hmultiple : (n / d : ℚ) / 2 ^ e = (h * 2 ^ k : ℕ) := by
      rw [hvalue, ← hk, zpow_add₀ (by norm_num), zpow_natCast, div_eq_iff hpow.ne']
      push_cast
      ring
    rw [hmultiple] at hnear
    have hm : m = h * 2 ^ k := natCast_inj_of_near (lt_of_le_of_lt hnear (by norm_num))
    rw [hm, ← hmultiple, div_mul_cancel₀ _ hpow.ne']

end BinaryFormat

end VectorIcon

/-
  VectorIcon.Proofs.Number.Digits
  ────────────────────────────────
  **THE SHORTEST DIGITS ARE FEW, OR NEAR.**

  The search for the shortest digits looks at grids which get ten times finer, and
  takes from the first one it can the nearer neighbour of the number
  (`neighbour?_some`).  It always finds one, as on the grid of nine digits both
  neighbours read back (`neighbour?_nine`).  If the neighbour which is taken is not
  well within a quarter of the number's unit, then neither is the other one, so the
  grid is coarse and the decimal has at most 25 bits: that is what is known of the
  shortest digits (`digits_known`).
-/
import VectorIcon.Proofs.Number.Text
import VectorIcon.Proofs.Number.Threshold

namespace VectorIcon

namespace Shortest

/-! ## §1. The leading digit. -/

theorem reachesPowerOfTen_iff (n : ℕ) {d : ℕ} (hd : 0 < d) (e : ℤ) :
    reachesPowerOfTen n d e = true ↔ (10 : ℚ) ^ e ≤ n / d := by
  have hdq : (0 : ℚ) < d := by exact_mod_cast hd
  have hpow : (0 : ℚ) < (10 ^ (-e).toNat : ℕ) := by positivity
  unfold reachesPowerOfTen
  rw [decide_eq_true_eq, Rat.ofNat_zpow, div_le_div_iff₀ hpow hdq]
  show d * 10 ^ e.toNat ≤ n * 10 ^ (-e).toNat ↔ _
  rw [mul_comm d]
  exact_mod_cast Iff.rfl

/-- A positive natural lies between the powers of ten of its digits. -/
theorem digitCount_bounds {n : ℕ} (hn : n ≠ 0) :
    (10 : ℚ) ^ ((Decimal.digitCount n : ℤ) - 1) ≤ n ∧ (n : ℚ) < 10 ^ (Decimal.digitCount n : ℤ) := by
  have h := Decimal.magnitude_bounds (d := ⟨false, n, 0⟩) hn
  unfold Decimal.magnitude at h
  simpa using h

/-- **The leading power** is the greatest power of ten below. -/
theorem leadingPower_spec {n d : ℕ} (hn : n ≠ 0) (hd : 0 < d) :
    (10 : ℚ) ^ leadingPower n d ≤ n / d ∧ (n / d : ℚ) < 10 ^ (leadingPower n d + 1) := by
  have hdq : (0 : ℚ) < d := by exact_mod_cast hd
  obtain ⟨hn1, hn2⟩ := digitCount_bounds hn
  obtain ⟨hd1, hd2⟩ := digitCount_bounds hd.ne'
  unfold leadingPower
  simp only
  generalize (Decimal.digitCount n : ℤ) = a at *
  generalize (Decimal.digitCount d : ℤ) = b at *
  -- the digits leave two powers open, and one comparison decides between them
  have hlow : (10 : ℚ) ^ (a - b - 1) ≤ n / d := by
    rw [le_div_iff₀ hdq]
    calc (10 : ℚ) ^ (a - b - 1) * d ≤ 10 ^ (a - b - 1) * 10 ^ b := by gcongr
      _ = 10 ^ (a - 1) := by
        rw [← zpow_add₀ (by norm_num)]
        congr 1
        omega
      _ ≤ n := hn1
  have hhigh : (n / d : ℚ) < 10 ^ (a - b + 1) := by
    rw [div_lt_iff₀ hdq]
    calc (n : ℚ) < 10 ^ a := hn2
      _ = 10 ^ (a - b + 1) * 10 ^ (b - 1) := by
        rw [← zpow_add₀ (by norm_num)]
        congr 1
        omega
      _ ≤ 10 ^ (a - b + 1) * d := by gcongr
  by_cases h : reachesPowerOfTen n d (a - b) = true
  · rw [if_pos h]
    exact ⟨(reachesPowerOfTen_iff n hd _).1 h, hhigh⟩
  · rw [if_neg h]
    refine ⟨hlow, ?_⟩
    rw [sub_add_cancel]
    exact lt_of_not_ge (mt (reachesPowerOfTen_iff n hd _).2 h)

/-- The leading power of a magnitude. -/
theorem leadingPower_dyadic {d : Dyadic} (hd : d.mantissa ≠ 0) :
    (10 : ℚ) ^ leadingPower d.num d.den ≤ d.mantissa * 2 ^ d.exponent ∧
      (d.mantissa * 2 ^ d.exponent : ℚ) < 10 ^ (leadingPower d.num d.den + 1) := by
  have hnum : d.num ≠ 0 := Nat.mul_ne_zero hd (Nat.pow_pos (by norm_num)).ne'
  rw [Scalar.dyadic_value]
  exact leadingPower_spec hnum (Scalar.den_pos d)

/-- The leading powers of single precision. -/
theorem leadingPower_bounds {d : Dyadic} (hfits : Fits d.mantissa d.exponent) (he : d.exponent ≤ 104)
    (hd : d.mantissa ≠ 0) :
    -45 ≤ leadingPower d.num d.den ∧ leadingPower d.num d.den ≤ 38 := by
  obtain ⟨hlow, hhigh⟩ := leadingPower_dyadic hd
  have hone : (1 : ℚ) ≤ d.mantissa := by exact_mod_cast Nat.one_le_iff_ne_zero.2 hd
  have hm : (d.mantissa : ℚ) < 2 ^ 24 := by exact_mod_cast hfits.mantissa_lt
  have hleast : (2 : ℚ) ^ (-149 : ℤ) ≤ 2 ^ d.exponent :=
    zpow_le_zpow_right₀ (by norm_num) hfits.exponent_ge
  have hgreatest : (2 : ℚ) ^ d.exponent ≤ 2 ^ (104 : ℤ) := zpow_le_zpow_right₀ (by norm_num) he
  have h1 : (10 : ℚ) ^ (-45 : ℤ) < 10 ^ (leadingPower d.num d.den + 1) := by
    calc (10 : ℚ) ^ (-45 : ℤ) < 1 * 2 ^ (-149 : ℤ) := by norm_num
      _ ≤ d.mantissa * 2 ^ d.exponent := by gcongr
      _ < _ := hhigh
  have h2 : (10 : ℚ) ^ leadingPower d.num d.den < 10 ^ (39 : ℤ) := by
    calc (10 : ℚ) ^ leadingPower d.num d.den ≤ d.mantissa * 2 ^ d.exponent := hlow
      _ ≤ 2 ^ 24 * 2 ^ (104 : ℤ) := by gcongr
      _ < 10 ^ (39 : ℤ) := by norm_num
  have h1 := (zpow_lt_zpow_iff_right₀ (by norm_num : (1 : ℚ) < 10)).1 h1
  have h2 := (zpow_lt_zpow_iff_right₀ (by norm_num : (1 : ℚ) < 10)).1 h2
  omega

/-! ## §2. Neighbours on a grid. -/

variable {p : Preference} (hp : p.useLowerEdge = true) {d : Dyadic} {s : ℤ}

/-- The number, counted in units of the grid. -/
def scaled (d : Dyadic) (s : ℤ) : ℚ := d.mantissa * 2 ^ d.exponent / 10 ^ s

theorem units_scaled (d : Dyadic) (s : ℤ) :
    0 < (units d s).2 ∧ ((units d s).1 / (units d s).2 : ℚ) = scaled d s := by
  have hden := Scalar.den_pos d
  unfold units scaled
  refine ⟨by show 0 < d.den * 10 ^ s.toNat; positivity, ?_⟩
  show ((d.num * 10 ^ (-s).toNat : ℕ) : ℚ) / (d.den * 10 ^ s.toNat : ℕ) = _
  rw [Scalar.dyadic_value, Rat.ofNat_zpow]
  push_cast
  field_simp

/-- One neighbour is preferred to the other: they are on both sides of the number,
    and the other does not read back or is as far at least. -/
structure Prefers (d : Dyadic) (s : ℤ) (c w : ℕ) : Prop where
  apart : |(c : ℚ) - scaled d s| + |(w : ℚ) - scaled d s| = 1
  nearer : RoundsTo d w s → |(c : ℚ) - scaled d s| ≤ |(w : ℚ) - scaled d s|

section Neighbours

include hp

theorem isCandidate_iff (c : ℕ) : isCandidate p d c s = true ↔ RoundsTo d c s := by
  unfold isCandidate readsBack
  rw [hp, Bool.true_or, Bool.and_true, beq_iff_eq]
  rfl

/-- **The neighbour which is taken** reads back and is preferred to another one. -/
theorem neighbour?_some {c : ℕ} (h : neighbour? p d s = some c) :
    RoundsTo d c s ∧ ∃ w, Prefers d s c w := by
  refine ⟨neighbour?_round h, ?_⟩
  obtain ⟨hu, hx⟩ := units_scaled d s
  unfold neighbour? at h
  simp only at h
  generalize (units d s).1 = n at *
  generalize (units d s).2 = u at *
  have hr : n % u < u := Nat.mod_lt n hu
  have hquotient := div_eq_add_remainder n hu
  have hbelow := div_lt_half_iff (r := n % u) hu
  have habove := half_lt_div_iff (r := n % u) hu
  have hnonneg : (0 : ℚ) ≤ (n % u : ℕ) / u := by positivity
  have hlt : ((n % u : ℕ) / u : ℚ) < 1 := by
    rw [div_lt_one (by exact_mod_cast hu)]
    exact_mod_cast hr
  have hscaled := hquotient.symm.trans hx
  generalize n / u = q at *
  generalize n % u = r at *
  generalize (r / u : ℚ) = f at *
  -- the distances of both neighbours are the fraction and what it lacks of one
  have hq : |(q : ℚ) - scaled d s| = f := by
    rw [← hscaled, sub_add_cancel_left, abs_neg, abs_of_nonneg hnonneg]
  have hq1 : |((q + 1 : ℕ) : ℚ) - scaled d s| = 1 - f := by
    rw [← hscaled]
    push_cast
    rw [add_sub_add_left_eq_sub, abs_of_pos (by linarith)]
  have hcandidate := isCandidate_iff hp (d := d) (s := s)
  have takeBelow : c = q → (RoundsTo d (q + 1) s → f ≤ 1 - f) → ∃ w, Prefers d s c w := by
    intro hc hle
    rw [hc]
    exact ⟨q + 1, by rw [hq, hq1]; ring, by rwa [hq, hq1]⟩
  have takeAbove : c = q + 1 → (RoundsTo d q s → 1 - f ≤ f) → ∃ w, Prefers d s c w := by
    intro hc hle
    rw [hc]
    exact ⟨q, by rw [hq, hq1]; ring, by rwa [hq, hq1]⟩
  split at h
  · next hno =>
    exact takeBelow (Option.some.inj h).symm fun hw => absurd ((hcandidate _).2 hw) (by simp [hno])
  · next hno _ =>
    exact takeAbove (Option.some.inj h).symm fun hw => absurd ((hcandidate _).2 hw) (by simp [hno])
  · cases h
  · split at h
    · next hless =>
      exact takeBelow (Option.some.inj h).symm fun _ => by linarith [hbelow.2 hless]
    · next hless =>
      have hhalf := not_lt.1 (mt hbelow.1 hless)
      split at h
      · exact takeAbove (Option.some.inj h).symm fun _ => by linarith
      · next hmore =>
        have hhalf' := not_lt.1 (mt habove.1 hmore)
        have htie := Option.some.inj h
        split at htie
        · exact takeBelow htie.symm fun _ => by linarith
        · exact takeAbove htie.symm fun _ => by linarith

/-- If no neighbour is taken, the one below does not read back. -/
theorem neighbour?_none (h : neighbour? p d s = none) :
    ∃ c : ℕ, |(c : ℚ) - scaled d s| < 1 ∧ ¬ RoundsTo d c s := by
  obtain ⟨hu, hx⟩ := units_scaled d s
  unfold neighbour? at h
  simp only at h
  generalize (units d s).1 = n at *
  generalize (units d s).2 = u at *
  refine ⟨n / u, ?_, ?_⟩
  · rw [← hx, div_eq_add_remainder n hu, sub_add_cancel_left, abs_neg, abs_of_nonneg (by positivity),
      div_lt_one (by exact_mod_cast hu)]
    exact_mod_cast Nat.mod_lt n hu
  · intro hround
    rw [(isCandidate_iff hp _).2 hround] at h
    split at h
    · cases h
    · next heq _ => cases heq
    · next heq _ => cases heq
    · split at h
      · cases h
      · split at h <;> cases h

end Neighbours

/-! ## §3. The search. -/

/-- The search takes a neighbour if there is one on a grid it looks at. -/
theorem search_found {leading : ℤ} (fuel : ℕ) {n k : ℕ} (hn : n ≤ k) (hk : k < n + fuel)
    (h : neighbour? p d (leading - k + 1) ≠ none) :
    ∃ (c i : ℕ), n ≤ i ∧ i ≤ k ∧ neighbour? p d (leading - i + 1) = some c ∧
      search p d leading fuel n = (c, leading - i + 1) := by
  induction fuel generalizing n with
  | zero => omega
  | succ fuel ih =>
    rw [search]
    cases hc : neighbour? p d (leading - n + 1) with
    | some c => exact ⟨c, n, le_rfl, hn, hc, rfl⟩
    | none =>
      have hlt : n < k := lt_of_le_of_ne hn fun heq => h (heq ▸ hc)
      obtain ⟨c, i, hi, hrest⟩ := ih (n := n + 1) hlt (by omega)
      exact ⟨c, i, by omega, hrest⟩

/-- Zeros are taken into the exponent. -/
theorem stripZeros_spec (fuel c : ℕ) (s : ℤ) :
    ∃ j : ℕ, c = (stripZeros fuel c s).1 * 10 ^ j ∧ (stripZeros fuel c s).2 = s + j := by
  induction fuel generalizing c s with
  | zero => exact ⟨0, by rw [pow_zero, mul_one]; rfl, by simp [stripZeros]⟩
  | succ fuel ih =>
    rw [stripZeros]
    by_cases hc : c % 10 = 0
    · rw [if_pos hc]
      obtain ⟨j, hj, hs⟩ := ih (c / 10) (s + 1)
      refine ⟨j + 1, ?_, by push_cast; omega⟩
      rw [pow_succ, ← mul_assoc, ← hj]
      omega
    · rw [if_neg hc]
      exact ⟨0, by rw [pow_zero, mul_one], by simp⟩

section Found

variable (hfits : Fits d.mantissa d.exponent) (he : d.exponent ≤ 104) (hd : d.mantissa ≠ 0)

theorem scaled_distance (d : Dyadic) (s : ℤ) (c : ℕ) :
    |(c : ℚ) - scaled d s| * 10 ^ s = |(c : ℚ) * 10 ^ s - d.mantissa * 2 ^ d.exponent| := by
  have hpow : (0 : ℚ) < 10 ^ s := by positivity
  rw [← abs_of_pos hpow, ← abs_mul, abs_of_pos hpow, sub_mul, scaled, div_mul_cancel₀ _ hpow.ne']

include hd

theorem RoundsTo.ne_zero {c : ℕ} (h : RoundsTo d c s) : c ≠ 0 := by
  rintro rfl
  unfold RoundsTo at h
  rw [Nat.zero_mul] at h
  cases h
  exact hd rfl

/-- What is rounded to the number is within half of its unit. -/
theorem RoundsTo.near {c : ℕ} (h : RoundsTo d c s) :
    |(c : ℚ) * 10 ^ s - d.mantissa * 2 ^ d.exponent| ≤ 2 ^ d.exponent / 2 := by
  have hc := h.ne_zero hd
  rw [← units_value]
  exact BinaryFormat.round_half (by positivity) (by positivity) h

include hfits he

/-- **A decimal within a quarter of the unit** reads back. -/
theorem roundsTo_of_near {c : ℕ}
    (h : |(c : ℚ) * 10 ^ s - d.mantissa * 2 ^ d.exponent| < 2 ^ d.exponent / 4) : RoundsTo d c s := by
  have hpow : (0 : ℚ) < 2 ^ d.exponent := by positivity
  have hc : c ≠ 0 := by
    rintro rfl
    have hone : (1 : ℚ) ≤ d.mantissa := by exact_mod_cast Nat.one_le_iff_ne_zero.2 hd
    rw [Nat.cast_zero, zero_mul, zero_sub, abs_neg, abs_of_nonneg (by positivity)] at h
    nlinarith
  refine BinaryFormat.round_of_near (by positivity) (by positivity) hfits he ?_
  rwa [units_value]

/-- **A preferred neighbour which is not well within a quarter of the unit** has at
    most 25 bits, as the grid is coarse. -/
theorem few_of_far {c w : ℕ} (hround : RoundsTo d c s) (hprefers : Prefers d s c w)
    (hfar : (1 / 4 - 3 / 2 ^ 29) * 2 ^ d.exponent ≤
      |(c : ℚ) * 10 ^ s - d.mantissa * 2 ^ d.exponent|) : c < 2 ^ 25 := by
  have hpow : (0 : ℚ) < 2 ^ d.exponent := by positivity
  have hgrid : (0 : ℚ) < 10 ^ s := by positivity
  obtain ⟨hapart, hnearer⟩ := hprefers
  -- the other neighbour is no nearer, or too far to read back
  have hother : (1 / 4 - 3 / 2 ^ 29) * 2 ^ d.exponent ≤
      |(w : ℚ) * 10 ^ s - d.mantissa * 2 ^ d.exponent| := by
    by_cases hw : RoundsTo d w s
    · rw [← scaled_distance] at hfar ⊢
      exact hfar.trans (mul_le_mul_of_nonneg_right (hnearer hw) hgrid.le)
    · have := not_lt.1 (mt (roundsTo_of_near hfits he hd) hw)
      norm_num
      linarith
  have hstep : (1 / 2 - 3 / 2 ^ 28) * 2 ^ d.exponent ≤ (10 : ℚ) ^ s := by
    have hsum : |(c : ℚ) * 10 ^ s - d.mantissa * 2 ^ d.exponent| +
        |(w : ℚ) * 10 ^ s - d.mantissa * 2 ^ d.exponent| = 10 ^ s := by
      rw [← scaled_distance, ← scaled_distance, ← add_mul, hapart, one_mul]
    norm_num at *
    linarith
  have hm : (d.mantissa : ℚ) + 1 ≤ 2 ^ 24 := by exact_mod_cast hfits.mantissa_lt
  have hvalue : (c : ℚ) * 10 ^ s ≤ (2 ^ 24 - 1 / 2) * 2 ^ d.exponent := by
    have := (abs_le.1 (hround.near hd)).2
    have : (d.mantissa : ℚ) * 2 ^ d.exponent ≤ (2 ^ 24 - 1) * 2 ^ d.exponent := by
      gcongr
      linarith
    norm_num at *
    linarith
  have hscaled : (c : ℚ) * (1 / 2 - 3 / 2 ^ 28) ≤ 2 ^ 24 - 1 / 2 := by
    refine le_of_mul_le_mul_right (le_trans ?_ hvalue) hpow
    rw [mul_assoc]
    gcongr
  have : (c : ℚ) < 2 ^ 25 := by
    norm_num at hscaled
    linarith
  exact_mod_cast this

include hp

/-- On a grid of nine digits a neighbour reads back. -/
theorem neighbour?_nine :
    neighbour? p d (leadingPower d.num d.den - (9 : ℕ) + 1) ≠ none := by
  intro hnone
  obtain ⟨c, hc, hround⟩ := neighbour?_none hp hnone
  refine hround (roundsTo_of_near hfits he hd ?_)
  obtain ⟨hlow, -⟩ := leadingPower_dyadic hd
  have hpow : (0 : ℚ) < 2 ^ d.exponent := by positivity
  have hm : (d.mantissa : ℚ) < 2 ^ 24 := by exact_mod_cast hfits.mantissa_lt
  rw [← scaled_distance]
  generalize hs : leadingPower d.num d.den - ((9 : ℕ) : ℤ) + 1 = s at hc ⊢
  have hgrid : (10 : ℚ) ^ s * 10 ^ 8 ≤ d.mantissa * 2 ^ d.exponent := by
    refine le_trans (le_of_eq ?_) hlow
    rw [← zpow_natCast, ← zpow_add₀ (by norm_num)]
    congr 1
    omega
  have hstep : (0 : ℚ) < 10 ^ s := by positivity
  nlinarith

end Found

/-! ## §4. What is known of the shortest digits. -/

/-- What is known of the shortest decimal of a number. -/
structure Known (d : Dyadic) (c : ℕ) (s : ℤ) : Prop where
  pos : 0 < c
  lt : c < 2 ^ 53
  exponent_lt : s.natAbs < 54
  rounds : RoundsTo d c s
  near_or_few : |(c : ℚ) * 10 ^ s - d.mantissa * 2 ^ d.exponent| < (1 / 4 - 3 / 2 ^ 29) * 2 ^ d.exponent ∨
    c < 2 ^ 25

section Known

variable (hfits : Fits d.mantissa d.exponent) (he : d.exponent ≤ 104) (hd : d.mantissa ≠ 0)

include hfits he hd

/-- What reads back has a small exponent. -/
theorem RoundsTo.exponent_lt {c : ℕ} (h : RoundsTo d c s) : s < 39 := by
  have hone : (1 : ℚ) ≤ c := by exact_mod_cast Nat.one_le_iff_ne_zero.2 (h.ne_zero hd)
  have hm : (d.mantissa : ℚ) < 2 ^ 24 := by exact_mod_cast hfits.mantissa_lt
  have hnear := (abs_le.1 (h.near hd)).2
  refine (zpow_lt_zpow_iff_right₀ (by norm_num : (1 : ℚ) < 10)).1 ?_
  calc (10 : ℚ) ^ s ≤ c * 10 ^ s := le_mul_of_one_le_left (by positivity) hone
    _ ≤ (2 ^ 24 + 1 / 2) * 2 ^ d.exponent := by
      have : (d.mantissa : ℚ) * 2 ^ d.exponent ≤ 2 ^ 24 * 2 ^ d.exponent := by gcongr
      linarith
    _ ≤ (2 ^ 24 + 1 / 2) * 2 ^ (104 : ℤ) :=
      mul_le_mul_of_nonneg_left (zpow_le_zpow_right₀ (by norm_num) he) (by norm_num)
    _ < 10 ^ (39 : ℤ) := by norm_num

/-- What is known of the neighbour which is taken. -/
theorem neighbour?_known (hp : p.useLowerEdge = true) {c i : ℕ} (hi : 1 ≤ i) (hi' : i ≤ 9)
    (h : neighbour? p d (leadingPower d.num d.den - i + 1) = some c) :
    Known d c (leadingPower d.num d.den - i + 1) := by
  obtain ⟨hlead, hlead'⟩ := leadingPower_bounds hfits he hd
  obtain ⟨-, hhigh⟩ := leadingPower_dyadic hd
  obtain ⟨hround, w, hprefers⟩ := neighbour?_some hp h
  generalize hs : leadingPower d.num d.den - (i : ℤ) + 1 = s at *
  have hgrid : (0 : ℚ) < 10 ^ s := by positivity
  refine ⟨Nat.pos_of_ne_zero (hround.ne_zero hd), ?_, by omega, hround, ?_⟩
  · -- the decimal has at most nine digits, but for a last carry
    have hx : scaled d s < 10 ^ 9 := by
      unfold scaled
      rw [div_lt_iff₀ hgrid]
      refine lt_of_lt_of_le hhigh ?_
      rw [← zpow_natCast, ← zpow_add₀ (by norm_num)]
      exact zpow_le_zpow_right₀ (by norm_num) (by push_cast; omega)
    have hc : (c : ℚ) - scaled d s ≤ 1 :=
      (le_abs_self _).trans (by linarith [hprefers.apart, abs_nonneg ((w : ℚ) - scaled d s)])
    have : (c : ℚ) < 2 ^ 53 := by
      norm_num at hx
      linarith
    exact_mod_cast this
  · by_cases hnear : |(c : ℚ) * 10 ^ s - d.mantissa * 2 ^ d.exponent| <
        (1 / 4 - 3 / 2 ^ 29) * 2 ^ d.exponent
    · exact .inl hnear
    · exact .inr (few_of_far hfits he hd hround hprefers (not_lt.1 hnear))

/-- Zeros at the end do not matter. -/
theorem Known.strip {c : ℕ} (h : Known d c s) (fuel : ℕ) :
    Known d (stripZeros fuel c s).1 (stripZeros fuel c s).2 := by
  have hvalue := stripZeros_value fuel c s
  obtain ⟨j, hj, hs⟩ := stripZeros_spec fuel c s
  generalize (stripZeros fuel c s).1 = c' at *
  generalize (stripZeros fuel c s).2 = s' at *
  have hle : c' ≤ c := by
    rw [hj]
    exact Nat.le_mul_of_pos_right _ (by positivity)
  have hround : RoundsTo d c' s' := by
    refine (BinaryFormat.round_congr (by positivity) (by positivity) ?_ _).trans h.rounds
    rw [units_value, units_value, hvalue]
  have hupper := hround.exponent_lt hfits he hd
  have hlower := h.exponent_lt
  refine ⟨Nat.pos_of_ne_zero (hround.ne_zero hd), lt_of_le_of_lt hle h.lt, by omega, hround, ?_⟩
  rw [hvalue]
  exact h.near_or_few.imp_right (lt_of_le_of_lt hle)

/-- **What is known of the shortest digits.** -/
theorem digits_known (hp : p.useLowerEdge = true) : Known d (digits p d).1 (digits p d).2 := by
  obtain ⟨c, i, hi, hi', hc, hsearch⟩ := search_found greatestDigitCount (n := 1) (k := 9)
    (by decide) (by decide) (neighbour?_nine hp hfits he hd)
  unfold digits
  rw [hsearch]
  exact (neighbour?_known hfits he hd hp hi hi' hc).strip hfits he hd _

end Known

end Shortest

end VectorIcon

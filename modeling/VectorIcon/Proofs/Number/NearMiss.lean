/-
  VectorIcon.Proofs.Number.NearMiss
  ────────────────────────────────
  **HOW NEAR A DECIMAL COMES TO A SHORT BINARY NUMBER.**

  A decimal `c · 10^s` and a binary number `h · 2^g`, both with at most 25 bits
  before the power, are equal or else more than the 9 · 2^-55th part of them apart,
  with six exceptions (`eq_or_doubtful_of_near`).  The question is how near
  `a · 2^t` comes to `b · 5^k`.  Pairs `(a, b)` are combinations of two pairs which
  enclose the ratio of the powers, and a near miss can only be a multiple of the
  nearer one of the two (`eq_zero_of_near`).  The enclosing pairs are computed,
  for each of the powers which matter, by taking sums of pairs
  (`Bracket.narrowed`), and what they show is checked (`settled_powers`).
-/
import Mathlib.Algebra.Order.Field.Basic
import Mathlib.Algebra.Order.Field.Power
import Mathlib.Data.Rat.Cast.Order
import Mathlib.Tactic.FieldSimp
import Mathlib.Tactic.GCongr
import Mathlib.Tactic.Linarith
import Mathlib.Tactic.LinearCombination
import Mathlib.Tactic.NormNum
import Mathlib.Tactic.Positivity
import Mathlib.Tactic.Ring

namespace VectorIcon

/-! ## §1. Pairs which enclose a ratio. -/

/-- Two pairs of naturals. -/
structure Bracket where
  low : ℕ × ℕ
  high : ℕ × ℕ

namespace Bracket

/-- The pairs enclose the ratio of `B` to `A`, and every pair is a combination of
    them. -/
structure Encloses (s : Bracket) (A B : ℕ) : Prop where
  low_le : s.low.1 * A ≤ s.low.2 * B
  le_high : s.high.2 * B ≤ s.high.1 * A
  unimodular : s.high.1 * s.low.2 = s.low.1 * s.high.2 + 1

/-- The pairs which enclose every ratio. -/
def whole : Bracket := ⟨(0, 1), (1, 0)⟩

/-- The sum of the pairs takes the place of one of them. -/
def narrow (s : Bracket) (A B : ℕ) : Bracket :=
  if (s.low.1 + s.high.1) * A ≤ (s.low.2 + s.high.2) * B then
    ⟨(s.low.1 + s.high.1, s.low.2 + s.high.2), s.high⟩
  else ⟨s.low, (s.low.1 + s.high.1, s.low.2 + s.high.2)⟩

/-- The sum of the pairs passes the bound, or a pair is the ratio. -/
def IsNarrow (s : Bracket) (A B bound : ℕ) : Prop :=
  s.low.1 * A = s.low.2 * B ∨ bound ≤ s.low.1 + s.high.1

instance (s : Bracket) (A B bound : ℕ) : Decidable (s.IsNarrow A B bound) :=
  inferInstanceAs (Decidable (_ ∨ _))

/-- Narrow until nothing below a bound is between the pairs. -/
def narrowed (A B bound : ℕ) : ℕ → Bracket → Bracket
  | 0, s => s
  | fuel + 1, s => if s.IsNarrow A B bound then s else narrowed A B bound fuel (s.narrow A B)

variable {s : Bracket} {A B : ℕ}

theorem whole_encloses (A B : ℕ) : whole.Encloses A B where
  low_le := by
    show 0 * A ≤ 1 * B
    omega
  le_high := by
    show 0 * B ≤ 1 * A
    omega
  unimodular := rfl

theorem Encloses.narrow (h : s.Encloses A B) : (s.narrow A B).Encloses A B := by
  obtain ⟨hlow, hhigh, hunit⟩ := h
  unfold Bracket.narrow
  split
  · next hle =>
    refine ⟨hle, hhigh, ?_⟩
    show s.high.1 * (s.low.2 + s.high.2) = (s.low.1 + s.high.1) * s.high.2 + 1
    rw [Nat.mul_add, Nat.add_mul, hunit]
    omega
  · next hlt =>
    refine ⟨hlow, (not_le.1 hlt).le, ?_⟩
    show (s.low.1 + s.high.1) * s.low.2 = s.low.1 * (s.low.2 + s.high.2) + 1
    rw [Nat.mul_add, Nat.add_mul, hunit]
    omega

theorem Encloses.narrowed (bound fuel : ℕ) (h : s.Encloses A B) :
    (Bracket.narrowed A B bound fuel s).Encloses A B := by
  induction fuel generalizing s with
  | zero => exact h
  | succ fuel ih =>
    rw [Bracket.narrowed]
    split
    · exact h
    · exact ih h.narrow

/-- **Every pair is a combination** of the enclosing ones. -/
theorem Encloses.combination (h : s.Encloses A B) (a b : ℕ) :
    ∃ x y : ℤ, (a : ℤ) = x * s.low.1 + y * s.high.1 ∧ (b : ℤ) = x * s.low.2 + y * s.high.2 := by
  have hunit : (s.high.1 : ℤ) * s.low.2 = s.low.1 * s.high.2 + 1 := by exact_mod_cast h.unimodular
  refine ⟨b * s.high.1 - a * s.high.2, a * s.low.2 - b * s.low.1, ?_, ?_⟩
  · linear_combination (-(a : ℤ)) * hunit
  · linear_combination (-(b : ℤ)) * hunit

end Bracket

/-! ## §2. Near misses are multiples. -/

/-- **A combination of two pairs which is nearer than the second one** is a multiple
    of the first one, if it is below their sum. -/
theorem eq_zero_of_near {u v x y u' v' : ℤ} (hu : 0 ≤ u) (hv : 0 ≤ v) (hopposite : u' * v' ≤ 0)
    (hpos : 0 < x * u + y * v) (hbelow : u' = 0 ∨ x * u + y * v < u + v)
    (hnear : |x * u' + y * v'| < |v'|) : y = 0 := by
  by_contra hy
  -- of the same sign, the combination is at least the sum; of opposite ones, the errors add up
  have hmixed : 0 ≤ (x * u') * (y * v') := by
    rcases hbelow with rfl | hbelow
    · simp
    · have hxy : x * y ≤ 0 := by
        by_contra hxy
        rcases pos_and_pos_or_neg_and_neg_of_mul_pos (not_le.1 hxy) with ⟨hx, hy⟩ | ⟨hx, hy⟩
        · nlinarith
        · nlinarith
      calc (0 : ℤ) ≤ (x * y) * (u' * v') := mul_nonneg_of_nonpos_of_nonpos hxy hopposite
        _ = (x * u') * (y * v') := by ring
  have hsum : |x * u' + y * v'| = |x * u'| + |y * v'| :=
    (abs_add_eq_add_abs_iff _ _).2 (mul_nonneg_iff.1 hmixed)
  have hone : |v'| ≤ |y * v'| := by
    rw [abs_mul]
    exact le_mul_of_one_le_left (abs_nonneg _) (Int.one_le_abs hy)
  linarith [abs_nonneg (x * u')]

/-! ## §3. Which near misses there are. -/

/-- Bound of both coefficients. -/
def coefficientBound : ℕ := 2 ^ 25

/-- Powers of five with the pairs for which `a · 2^t` and `b · 5^k` differ, but by
    at most the 5 · 2^-54th part. -/
def nearMisses : List (ℕ × ℕ × ℕ) :=
  [(15, 25645849, 28874659), (32, 28154124, 22841339), (32, 14077062, 22841339), (32, 7038531, 22841339)]

/-- How far a pair is from the ratio of `B` to `A`. -/
def gap (A B : ℕ) (p : ℕ × ℕ) : ℕ := ((p.1 * A : ℕ) - (p.2 * B : ℕ) : ℤ).natAbs

/-- Whether a pair is farther than near misses are. -/
def isFar (A B : ℕ) (p : ℕ × ℕ) : Bool := decide (5 * coefficientBound * B < 2 ^ 54 * gap A B p)

/-- Whether the multiples of a pair are no near misses but the known ones. -/
def isHarmless (k A B : ℕ) (p : ℕ × ℕ) : Bool :=
  decide (gap A B p = 0) || decide (5 * p.2 * B < 2 ^ 54 * gap A B p) ||
    decide (coefficientBound ≤ p.1) || decide (coefficientBound ≤ p.2) || nearMisses.contains (k, p)

/-- Whether a bracket shows that there are no other near misses. -/
def Bracket.settles (s : Bracket) (k A B : ℕ) : Bool :=
  decide (s.IsNarrow A B coefficientBound) &&
    if gap A B s.low ≤ gap A B s.high then isFar A B s.high && isHarmless k A B s.low
    else isFar A B s.low && isHarmless k A B s.high

section Settled

variable {k A B a b : ℕ} (ha : 0 < a) (ha' : a < coefficientBound) (hb' : b < coefficientBound)
  (hnear : 2 ^ 54 * gap A B (a, b) ≤ 5 * b * B)

include ha ha' hb' hnear

/-- A near miss which is a multiple of a harmless pair. -/
theorem eq_or_mem_of_multiple {p : ℕ × ℕ} (hp : isHarmless k A B p = true) {x : ℕ} (hxa : a = x * p.1)
    (hxb : b = x * p.2) : a * A = b * B ∨ (k, a, b) ∈ nearMisses := by
  have hx : 0 < x := Nat.pos_of_ne_zero fun h => by
    rw [h, Nat.zero_mul] at hxa
    omega
  have hgap : gap A B (a, b) = x * gap A B p := by
    have hfactor : ((a * A : ℕ) - (b * B : ℕ) : ℤ) = x * ((p.1 * A : ℕ) - (p.2 * B : ℕ)) := by
      rw [hxa, hxb]
      push_cast
      ring
    show ((a * A : ℕ) - (b * B : ℕ) : ℤ).natAbs = _
    rw [hfactor, Int.natAbs_mul, Int.natAbs_natCast]
    rfl
  unfold isHarmless at hp
  simp only [Bool.or_eq_true, decide_eq_true_eq] at hp
  rcases hp with (((hp | hp) | hp) | hp) | hp
  · -- the pair is the ratio
    left
    rw [hp, Nat.mul_zero] at hgap
    have hgap : ((a * A : ℕ) - (b * B : ℕ) : ℤ).natAbs = 0 := hgap
    omega
  · -- multiples are as far as the pair, relative to it
    rw [hgap, hxb] at hnear
    have := Nat.mul_lt_mul_of_pos_left hp hx
    nlinarith
  · have := Nat.le_mul_of_pos_left p.1 hx
    omega
  · have := Nat.le_mul_of_pos_left p.2 hx
    omega
  · -- twice a known one is too great
    right
    have hmem : (k, p) ∈ nearMisses := by simpa using hp
    have hgreat : ∀ q ∈ nearMisses, coefficientBound ≤ 2 * q.2.2 := by decide
    have hhalf := hgreat _ hmem
    obtain rfl : x = 1 := by
      by_contra hne
      have : 2 * p.2 ≤ x * p.2 := Nat.mul_le_mul_right _ (by omega)
      simp only at hhalf
      omega
    rw [hxa, hxb, Nat.one_mul, Nat.one_mul]
    exact hmem

/-- A near miss which is combined of a harmless pair and a far one. -/
theorem eq_or_mem_of_combination {p q : ℕ × ℕ} (hfar : isFar A B q = true)
    (hp : isHarmless k A B p = true)
    (hopposite : ((p.1 * A : ℕ) - (p.2 * B : ℕ) : ℤ) * ((q.1 * A : ℕ) - (q.2 * B : ℕ)) ≤ 0)
    (hnarrow : p.1 * A = p.2 * B ∨ coefficientBound ≤ p.1 + q.1) {x y : ℤ}
    (hxa : (a : ℤ) = x * p.1 + y * q.1) (hxb : (b : ℤ) = x * p.2 + y * q.2) :
    a * A = b * B ∨ (k, a, b) ∈ nearMisses := by
  have herror : ((a * A : ℕ) - (b * B : ℕ) : ℤ) =
      x * ((p.1 * A : ℕ) - (p.2 * B : ℕ)) + y * ((q.1 * A : ℕ) - (q.2 * B : ℕ)) := by
    push_cast
    rw [hxa, hxb]
    ring
  have hless : gap A B (a, b) < gap A B q := by
    have hfar : 5 * coefficientBound * B < 2 ^ 54 * gap A B q := of_decide_eq_true hfar
    have : 5 * b * B ≤ 5 * coefficientBound * B := by gcongr
    omega
  obtain rfl : y = 0 := by
    refine eq_zero_of_near (u := p.1) (v := q.1) (x := x) (Int.natCast_nonneg _) (Int.natCast_nonneg _)
      hopposite ?_ ?_ ?_
    · rw [← hxa]
      exact_mod_cast ha
    · rw [← hxa]
      rcases hnarrow with h | h
      · left
        omega
      · right
        omega
    · rw [← herror, Int.abs_eq_natAbs, Int.abs_eq_natAbs]
      exact Int.ofNat_lt.2 hless
  rw [zero_mul, add_zero] at hxa hxb
  -- the remaining factor is positive
  obtain ⟨n, rfl⟩ : ∃ n : ℕ, x = n := by
    refine Int.eq_ofNat_of_zero_le ?_
    by_contra hx
    have := mul_nonpos_of_nonpos_of_nonneg (not_le.1 hx).le (Int.natCast_nonneg p.1)
    omega
  exact eq_or_mem_of_multiple ha ha' hb' hnear hp (by exact_mod_cast hxa) (by exact_mod_cast hxb)

/-- **What a bracket settles.** -/
theorem Bracket.Encloses.eq_or_mem {s : Bracket} (hs : s.Encloses A B) (hsettles : s.settles k A B = true) :
    a * A = b * B ∨ (k, a, b) ∈ nearMisses := by
  obtain ⟨x, y, hxa, hxb⟩ := hs.combination a b
  have hlow : ((s.low.1 * A : ℕ) - (s.low.2 * B : ℕ) : ℤ) ≤ 0 := by
    have := hs.low_le
    omega
  have hhigh : (0 : ℤ) ≤ (s.high.1 * A : ℕ) - (s.high.2 * B : ℕ) := by
    have := hs.le_high
    omega
  unfold Bracket.settles at hsettles
  rw [Bool.and_eq_true, decide_eq_true_eq] at hsettles
  obtain ⟨hnarrow, hsettles⟩ := hsettles
  split at hsettles
  · obtain ⟨hfar, hharmless⟩ := Bool.and_eq_true_iff.1 hsettles
    exact eq_or_mem_of_combination ha ha' hb' hnear hfar hharmless
      (mul_nonpos_of_nonpos_of_nonneg hlow hhigh) hnarrow hxa hxb
  · next hgap =>
    obtain ⟨hfar, hharmless⟩ := Bool.and_eq_true_iff.1 hsettles
    have hwide : coefficientBound ≤ s.high.1 + s.low.1 := by
      rcases hnarrow with h | h
      · unfold gap at hgap
        omega
      · omega
    rw [add_comm] at hxa hxb
    exact eq_or_mem_of_combination ha ha' hb' hnear hfar hharmless
      (mul_nonpos_of_nonneg_of_nonpos hhigh hlow) (.inr hwide) hxa hxb

end Settled

/-- The powers of two next to a power of five. -/
def powersNear (k : ℕ) : List ℕ := [(5 ^ k).log2, (5 ^ k).log2 + 1]

/-- The brackets of all powers which matter settle them. -/
theorem settled_powers : ∀ k < 54, ∀ t ∈ powersNear k,
    (Bracket.narrowed (2 ^ t) (5 ^ k) coefficientBound 1000 .whole).settles k (2 ^ t) (5 ^ k) = true := by
  decide +kernel

/-! ## §4. Near misses of all pairs. -/

/-- A natural times a power of two has 25 bits. -/
theorem exists_normal {a : ℕ} (ha : 0 < a) (ha' : a < coefficientBound) :
    ∃ i : ℕ, 2 ^ 24 ≤ a * 2 ^ i ∧ a * 2 ^ i < coefficientBound := by
  have hlog : a.log2 < 25 := (Nat.log2_lt ha.ne').2 ha'
  refine ⟨24 - a.log2, ?_, ?_⟩
  · calc 2 ^ 24 = 2 ^ a.log2 * 2 ^ (24 - a.log2) := by rw [← pow_add]; congr 1; omega
      _ ≤ a * 2 ^ (24 - a.log2) := by
        gcongr
        exact Nat.log2_self_le ha.ne'
  · calc a * 2 ^ (24 - a.log2) < 2 ^ (a.log2 + 1) * 2 ^ (24 - a.log2) := by
          gcongr
          exact Nat.lt_log2_self
      _ = 2 ^ 25 := by rw [← pow_add]; congr 1; omega

/-- The pairs of a near miss, whatever powers of two are in their parts. -/
theorem mem_of_normal {k a b i j : ℕ} (h : (k, a * 2 ^ i, b * 2 ^ j) ∈ nearMisses) :
    (k, a, b) ∈ nearMisses := by
  -- none of the parts is a multiple of eight
  have hparts : ∀ n m : ℕ, n * 2 ^ m % 8 ≠ 0 → n * 2 ^ m = n ∨ n * 2 ^ m = n * 2 ∨ n * 2 ^ m = n * 4 := by
    intro n m hn
    rcases m with _ | _ | _ | m
    · omega
    · omega
    · omega
    · rw [show m + 1 + 1 + 1 = m + 3 from rfl, pow_add, ← mul_assoc] at hn
      omega
  simp only [nearMisses, List.mem_cons, Prod.mk.injEq, List.not_mem_nil, or_false] at h ⊢
  have ha := hparts a i
  have hb := hparts b j
  generalize a * 2 ^ i = n at *
  generalize b * 2 ^ j = m at *
  omega

/-- The power of two of a near miss is next to the power of five. -/
theorem exponent_of_near {B α β : ℕ} (hB : B ≠ 0) (hα : 2 ^ 24 ≤ α ∧ α < coefficientBound)
    (hβ : 2 ^ 24 ≤ β ∧ β < coefficientBound) {t : ℤ}
    (hnear : |(α : ℚ) * 2 ^ t - β * B| ≤ 5 / 2 ^ 54 * (β * B)) :
    t = B.log2 ∨ t = B.log2 + 1 := by
  have hlow : ((2 : ℚ) ^ B.log2) ≤ B := by exact_mod_cast Nat.log2_self_le hB
  have hhigh : (B : ℚ) < 2 ^ B.log2 * 2 := by exact_mod_cast Nat.lt_log2_self
  have hα1 : (2 ^ 24 : ℚ) ≤ α := by exact_mod_cast hα.1
  have hα2 : (α : ℚ) + 1 ≤ 2 ^ 25 := by exact_mod_cast hα.2
  have hβ1 : (2 ^ 24 : ℚ) ≤ β := by exact_mod_cast hβ.1
  have hβ2 : (β : ℚ) + 1 ≤ 2 ^ 25 := by exact_mod_cast hβ.2
  obtain ⟨hbelow, habove⟩ := abs_le.1 hnear
  have hpos : (0 : ℚ) < B := by exact_mod_cast Nat.pos_of_ne_zero hB
  have hpow : (0 : ℚ) < 2 ^ t := by positivity
  have h1 : (2 : ℚ) ^ ((B.log2 : ℤ) - 1) < 2 ^ t := by
    rw [zpow_sub_one₀ (by norm_num), zpow_natCast]
    by_contra hle
    have hle := not_lt.1 hle
    have h1 : (α : ℚ) * 2 ^ t ≤ (2 ^ 25 - 1) * (B / 2) := by
      gcongr
      · linarith
      · linarith
    have h2 : (2 ^ 24 : ℚ) * B ≤ β * B := by gcongr
    norm_num at h1 h2 hbelow
    linarith
  have h2 : (2 : ℚ) ^ t < 2 ^ ((B.log2 : ℤ) + 2) := by
    rw [zpow_add₀ (by norm_num), zpow_natCast]
    by_contra hle
    have hle := not_lt.1 hle
    have h1 : (2 ^ 24 : ℚ) * (2 * B) ≤ α * 2 ^ t := by
      gcongr
      norm_num at hle
      linarith
    have h2 : (β : ℚ) * B ≤ (2 ^ 25 - 1) * B := by
      gcongr
      linarith
    norm_num at h1 h2 habove
    linarith
  have h1 := (zpow_lt_zpow_iff_right₀ (by norm_num : (1 : ℚ) < 2)).1 h1
  have h2 := (zpow_lt_zpow_iff_right₀ (by norm_num : (1 : ℚ) < 2)).1 h2
  omega

/-- **Near misses are known**: `a · 2^t` and `b · 5^k` are equal, or far apart, but
    for the listed pairs. -/
theorem eq_or_mem_of_near {k a b : ℕ} (hk : k < 54) (ha : 0 < a) (ha' : a < coefficientBound) (hb : 0 < b)
    (hb' : b < coefficientBound) {t : ℤ}
    (hnear : |(a : ℚ) * 2 ^ t - b * 5 ^ k| ≤ 5 / 2 ^ 54 * (b * 5 ^ k)) :
    (a : ℚ) * 2 ^ t = b * 5 ^ k ∨ (k, a, b) ∈ nearMisses := by
  obtain ⟨i, hi, hi'⟩ := exists_normal ha ha'
  obtain ⟨j, hj, hj'⟩ := exists_normal hb hb'
  have hscale : ((a * 2 ^ i : ℕ) : ℚ) * 2 ^ (t - i + j) - (b * 2 ^ j : ℕ) * 5 ^ k =
      (a * 2 ^ t - b * 5 ^ k) * 2 ^ j := by
    rw [zpow_add₀ (by norm_num), zpow_sub₀ (by norm_num), zpow_natCast, zpow_natCast]
    push_cast
    field_simp
  have hscaled : |((a * 2 ^ i : ℕ) : ℚ) * 2 ^ (t - i + j) - (b * 2 ^ j : ℕ) * 5 ^ k| ≤
      5 / 2 ^ 54 * ((b * 2 ^ j : ℕ) * 5 ^ k) := by
    rw [hscale, abs_mul, abs_of_pos (by positivity : (0 : ℚ) < 2 ^ j)]
    calc |(a : ℚ) * 2 ^ t - b * 5 ^ k| * 2 ^ j ≤ 5 / 2 ^ 54 * (b * 5 ^ k) * 2 ^ j := by gcongr
      _ = 5 / 2 ^ 54 * ((b * 2 ^ j : ℕ) * 5 ^ k) := by
        push_cast
        ring
  obtain ⟨n, hn, hmem⟩ : ∃ n : ℕ, t - i + j = n ∧ n ∈ powersNear k := by
    rcases exponent_of_near (B := 5 ^ k) (by positivity) ⟨hi, hi'⟩ ⟨hj, hj'⟩
      (by exact_mod_cast hscaled) with h | h
    · exact ⟨_, h, by simp [powersNear]⟩
    · exact ⟨_, h, by simp [powersNear]⟩
  rw [hn, zpow_natCast] at hscale hscaled
  have hnatural : 2 ^ 54 * gap (2 ^ n) (5 ^ k) (a * 2 ^ i, b * 2 ^ j) ≤ 5 * (b * 2 ^ j) * 5 ^ k := by
    have hgap : ((gap (2 ^ n) (5 ^ k) (a * 2 ^ i, b * 2 ^ j) : ℕ) : ℚ) =
        |((a * 2 ^ i : ℕ) : ℚ) * 2 ^ n - (b * 2 ^ j : ℕ) * 5 ^ k| := by
      unfold gap
      rw [Nat.cast_natAbs]
      push_cast
      rfl
    rw [← hgap, ← sub_nonneg] at hscaled
    have : (2 ^ 54 * gap (2 ^ n) (5 ^ k) (a * 2 ^ i, b * 2 ^ j) : ℚ) ≤ (5 * (b * 2 ^ j) * 5 ^ k : ℕ) := by
      push_cast at hscaled ⊢
      linarith
    exact_mod_cast this
  rcases ((Bracket.whole_encloses _ _).narrowed coefficientBound 1000).eq_or_mem (by omega) hi' hj' hnatural
    (settled_powers k hk n hmem) with heq | hmem
  · left
    have : ((a * 2 ^ i : ℕ) : ℚ) * 2 ^ n - (b * 2 ^ j : ℕ) * 5 ^ k = 0 := by
      rw [sub_eq_zero]
      exact_mod_cast heq
    rw [hscale] at this
    exact sub_eq_zero.1 ((mul_eq_zero.1 this).resolve_right (by positivity))
  · exact .inr (mem_of_normal hmem)

/-- Equal pairs have a small power of five. -/
theorem exponent_le_of_eq {k a b : ℕ} (ha : 0 < a) (ha' : a < coefficientBound) {t : ℤ}
    (h : (a : ℚ) * 2 ^ t = b * 5 ^ k) : k ≤ 10 := by
  have hdvd : 5 ^ k ∣ a := by
    rcases t with n | n
    · rw [Int.ofNat_eq_natCast, zpow_natCast] at h
      have h : a * 2 ^ n = b * 5 ^ k := by exact_mod_cast h
      exact (Nat.Coprime.pow k n (show Nat.Coprime 5 2 by decide)).dvd_of_dvd_mul_right ⟨b, by rw [h, mul_comm]⟩
    · rw [zpow_negSucc, mul_inv_eq_iff_eq_mul₀ (by positivity)] at h
      have h : a = b * 5 ^ k * 2 ^ (n + 1) := by exact_mod_cast h
      exact ⟨b * 2 ^ (n + 1), by rw [h]; ring⟩
  by_contra hk
  have h1 := Nat.le_of_dvd ha hdvd
  have h2 : 5 ^ 11 ≤ 5 ^ k := Nat.pow_le_pow_right (by norm_num) (by omega)
  unfold coefficientBound at ha'
  omega

/-! ## §5. Decimals. -/

/-- Decimals of 25 bits which come near to a binary number of 25 bits without being
    that number. -/
def doubtful : List (ℕ × ℤ) :=
  [(25645849, -15), (28874659, 15), (28154124, -32), (14077062, -32), (7038531, -32), (22841339, 32)]

/-- **A decimal of 25 bits** near to a binary number of 25 bits is that number, and
    has a small exponent, or it is doubtful. -/
theorem eq_or_doubtful_of_near {c h : ℕ} (hc : 0 < c) (hc' : c < coefficientBound)
    (hh : h < coefficientBound) {s g : ℤ} (hs : s.natAbs < 54)
    (hnear : |(c : ℚ) * 10 ^ s - h * 2 ^ g| ≤ 9 / 2 ^ 55 * (c * 10 ^ s)) :
    ((c : ℚ) * 10 ^ s = h * 2 ^ g ∧ s.natAbs ≤ 10) ∨ (c, s) ∈ doubtful := by
  have hknown : ∀ p ∈ nearMisses, (p.2.1, -(p.1 : ℤ)) ∈ doubtful ∧ (p.2.2, (p.1 : ℤ)) ∈ doubtful := by
    decide
  have hten : ∀ k : ℤ, (10 : ℚ) ^ k = 2 ^ k * 5 ^ k := fun k => by
    rw [← mul_zpow]
    norm_num
  have hpos : (0 : ℚ) < c * 10 ^ s := by positivity
  have hh0 : 0 < h := by
    refine Nat.pos_of_ne_zero fun h0 => ?_
    rw [h0, Nat.cast_zero, zero_mul, sub_zero, abs_of_pos hpos] at hnear
    linarith
  obtain ⟨k, rfl | rfl⟩ := s.eq_nat_or_neg
  · -- `h · 2^(g-k)` is near to `c · 5^k`
    rw [Int.natAbs_natCast] at hs
    have hpow : (0 : ℚ) < 2 ^ (k : ℤ) := by positivity
    have hfactor : (c : ℚ) * 10 ^ (k : ℤ) - h * 2 ^ g = -(h * 2 ^ (g - k) - c * 5 ^ k) * 2 ^ (k : ℤ) := by
      rw [hten, zpow_sub₀ (by norm_num), zpow_natCast 5]
      field_simp
      ring
    have hvalue : (c : ℚ) * 10 ^ (k : ℤ) = c * 5 ^ k * 2 ^ (k : ℤ) := by
      rw [hten, zpow_natCast 5]
      ring
    rw [hfactor, hvalue, abs_mul, abs_neg, abs_of_pos hpow, ← mul_assoc] at hnear
    have hnear := le_of_mul_le_mul_right hnear hpow
    rcases eq_or_mem_of_near hs hh0 hh hc hc' 
      (hnear.trans (mul_le_mul_of_nonneg_right (by norm_num) (by positivity))) with heq | hmem
    · refine .inl ⟨?_, ?_⟩
      · rw [← sub_eq_zero, hfactor, heq, sub_self, neg_zero, zero_mul]
      · rw [Int.natAbs_natCast]
        exact exponent_le_of_eq hh0 hh heq
    · exact .inr (hknown _ hmem).2
  · -- `c · 2^(-g-k)` is near to `h · 5^k`
    rw [Int.natAbs_neg, Int.natAbs_natCast] at hs ⊢
    have hpow : (0 : ℚ) < 2 ^ g / 5 ^ k := by positivity
    have hvalue : (c : ℚ) * 10 ^ (-k : ℤ) = c * 2 ^ (-g - k) * (2 ^ g / 5 ^ k) := by
      rw [hten, zpow_sub₀ (by norm_num), zpow_neg 5, zpow_neg, zpow_neg, zpow_natCast 5]
      field_simp
    have hfactor : (c : ℚ) * 10 ^ (-k : ℤ) - h * 2 ^ g = (c * 2 ^ (-g - k) - h * 5 ^ k) * (2 ^ g / 5 ^ k) := by
      rw [hvalue]
      field_simp
    rw [hfactor, hvalue, abs_mul, abs_of_pos hpow, ← mul_assoc] at hnear
    have hnear := le_of_mul_le_mul_right hnear hpow
    -- the bound is taken relative to the other one of both
    have hother : |(c : ℚ) * 2 ^ (-g - k : ℤ) - h * 5 ^ k| ≤ 5 / 2 ^ 54 * (h * 5 ^ k) := by
      have hy : (0 : ℚ) < h * 5 ^ k := by positivity
      generalize (c : ℚ) * 2 ^ (-g - k : ℤ) = x at *
      generalize (h : ℚ) * 5 ^ k = y at *
      have hx := (abs_le.1 hnear).2
      norm_num at hnear hx ⊢
      linarith
    rcases eq_or_mem_of_near hs hc hc' hh0 hh hother with heq | hmem
    · refine .inl ⟨?_, exponent_le_of_eq hc hc' heq⟩
      rw [← sub_eq_zero, hfactor, heq, sub_self, zero_mul]
    · exact .inr (hknown _ hmem).1

end VectorIcon

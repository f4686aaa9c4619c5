/-
  VectorIcon.Proofs.Json.Number
  ────────────────────────────────
  **A FINITE NUMBER SURVIVES ITS TEXT.**

  A number is written with its shortest digits.  The reader makes a double of the
  significand, scales it once by a double which is the power of ten or next to it,
  and rounds the result to single precision.  So the decimal is rounded twice or
  three times, and the last rounding starts from a double which is a little off
  (`Number.scale_near`).  It still goes to the number which was written
  (`round_of_scaled`): the decimal is well within a quarter of the number's unit,
  or it has so few bits that no place where rounding changes is as near to it.
-/
import VectorIcon.Proofs.Json.Layout
import VectorIcon.Proofs.Number.Digits
import VectorIcon.Proofs.Number.NearMiss

namespace VectorIcon

namespace Json

namespace Number

/-! ## §1. Digits which fit. -/

/-- Digits after a significand. -/
def appendDigits (n : ℕ) (cs : List Char) : ℕ := cs.foldl (fun n c => 10 * n + Decimal.digitValue c) n

theorem le_appendDigits (n : ℕ) (cs : List Char) : n ≤ appendDigits n cs := by
  induction cs generalizing n with
  | nil => exact le_rfl
  | cons c cs ih => exact le_trans (by omega) (ih (10 * n + Decimal.digitValue c))

/-- All digits are taken if they fit. -/
theorem takeDigits_eq {n : ℕ} {cs : List Char} (h : appendDigits n cs < wordBound) :
    takeDigits n cs = (appendDigits n cs, []) := by
  induction cs generalizing n with
  | nil => rfl
  | cons c cs ih =>
    have hfits : 10 * n + Decimal.digitValue c < wordBound :=
      lt_of_le_of_lt (le_appendDigits _ cs) h
    rw [takeDigits]
    show (if _ then _ else _) = _
    rw [if_pos hfits]
    exact ih h

/-- **A number with a fraction or an exponent** is its significand times a power
    of ten. -/
theorem ofText_eq {t : NumberText} (hdouble : t.fraction.isSome || t.exponent.isSome)
    (h : t.significand < wordBound) :
    ofText t = (scale t.significand t.power).map (.double t.negative) := by
  have hsplit : t.significand = appendDigits (appendDigits 0 t.whole) (t.fraction.getD []) :=
    List.foldl_append
  rw [hsplit] at h
  have hwhole := takeDigits_eq (lt_of_le_of_lt (le_appendDigits _ _) h)
  have hfraction := takeDigits_eq h
  have hnone : (t.fraction.isNone && t.exponent.isNone && ([] : List Char).isEmpty) = false := by
    cases hf : t.fraction <;> cases he : t.exponent <;> simp_all
  unfold ofText
  rw [hwhole]
  simp only
  rw [if_neg (by rw [hnone]; exact Bool.false_ne_true), hfraction, ← hsplit]
  have hpower : ((([] : List Char).length : ℤ) -
      (((t.fraction.getD []).length - ([] : List Char).length : ℕ) : ℤ)) +
      t.exponentValue = t.power := by
    unfold NumberText.power
    simp only [List.length_nil]
    push_cast
    omega
  rw [← hpower]
  rfl

/-! ## §2. Doubles. -/

/-- A magnitude which is nearer to a positive number than zero is positive. -/
theorem num_ne_zero {r : Dyadic} {v : ℚ} (hv : 0 < v) (h : |(r.num / r.den : ℚ) - v| < v) :
    r.num ≠ 0 := by
  intro hzero
  rw [hzero, Nat.cast_zero, zero_div, zero_sub, abs_neg, abs_of_pos hv] at h
  exact lt_irrefl _ h

/-- A double is off from a number by little; under a condition it is exact if the
    number has at most 53 bits. -/
structure Nears (exactly : Prop) (v : ℚ) (r : Dyadic) : Prop where
  error : |(r.num / r.den : ℚ) - v| ≤ 9 / 2 ^ 55 * v
  exact : exactly → ∀ h < 2 ^ 53, ∀ g : ℤ, v = (h : ℕ) * 2 ^ g → (r.num / r.den : ℚ) = v

/-- What is rounded to a double was off by little, and still is. -/
theorem round_near {n d : ℕ} (hd : 0 < d) {v : ℚ} (hlow : (10 : ℚ) ^ (-54 : ℤ) ≤ v)
    (hhigh : v < 10 ^ (70 : ℤ)) (hnear : |(n / d : ℚ) - v| ≤ 9 / 8 * (v / 2 ^ 53)) :
    ∃ r, BinaryFormat.double.round n d = some r ∧ Nears ((n / d : ℚ) = v) v r := by
  have hv : 0 < v := lt_of_lt_of_le (by positivity) hlow
  obtain ⟨hbelow, habove⟩ := abs_le.1 hnear
  obtain ⟨r, hr, herror, hexact⟩ := BinaryFormat.double_round (n := n) hd
    (by norm_num at *; linarith) (by norm_num at *; linarith)
  rw [Scalar.dyadic_value] at herror hexact
  refine ⟨r, hr, ?_, ?_⟩
  · generalize (n / d : ℚ) = q at *
    generalize (r.num / r.den : ℚ) = y at *
    rw [abs_le] at *
    norm_num at *
    constructor <;> linarith
  · intro hq h hh g hvalue
    rw [hexact h hh g (hq.trans hvalue), hq]

/-- **The double of a power of ten.** -/
theorem powerOfTen_near {k : ℕ} (hk : k < 54) :
    |((powerOfTen k).num / (powerOfTen k).den : ℚ) - 10 ^ k| ≤ 10 ^ k / 2 ^ 53 ∧
      (k ≤ 22 → ((powerOfTen k).num / (powerOfTen k).den : ℚ) = 10 ^ k) := by
  have hone : (1 : ℚ) ≤ 10 ^ k := one_le_pow₀ (by norm_num)
  have hupper : (10 : ℚ) ^ k ≤ 10 ^ 54 := pow_le_pow_right₀ (by norm_num) hk.le
  have hvalue : (((10 ^ k : ℕ) : ℚ) / (1 : ℕ)) = 10 ^ k := by
    push_cast
    rw [div_one]
  obtain ⟨r, hr, herror, hexact⟩ := BinaryFormat.double_round (n := 10 ^ k) (d := 1) one_pos
    (by rw [hvalue]; exact le_trans (by norm_num) hone)
    (by rw [hvalue]; exact lt_of_le_of_lt hupper (by norm_num))
  have hpower : powerOfTen k = r := by
    unfold powerOfTen
    rw [show Nat.pow 10 k = 10 ^ k from rfl, hr]
    rfl
  rw [hvalue, Scalar.dyadic_value] at herror hexact
  rw [hpower]
  refine ⟨herror, fun hk' => hexact (5 ^ k) ?_ k ?_⟩
  · calc 5 ^ k ≤ 5 ^ 22 := Nat.pow_le_pow_right (by norm_num) hk'
      _ < 2 ^ 53 := by norm_num
  · push_cast
    rw [zpow_natCast, ← mul_pow]
    norm_num

/-- A natural of 53 bits is a double. -/
theorem natural_exact {c : ℕ} (hc : 0 < c) (hc' : c < 2 ^ 53) :
    ∃ f, BinaryFormat.double.round c 1 = some f ∧ (f.num / f.den : ℚ) = c ∧ f.mantissa ≠ 0 := by
  have hone : (1 : ℚ) ≤ c := by exact_mod_cast hc
  have hupper : (c : ℚ) < 2 ^ 53 := by exact_mod_cast hc'
  have hvalue : ((c : ℚ) / (1 : ℕ)) = c := by
    push_cast
    rw [div_one]
  obtain ⟨f, hf, -, hexact⟩ := BinaryFormat.double_round (n := c) (d := 1) one_pos
    (by rw [hvalue]; exact le_trans (by norm_num) hone)
    (by rw [hvalue]; exact lt_trans hupper (by norm_num))
  rw [hvalue] at hexact
  have hsame := hexact c hc' 0 (by simp)
  refine ⟨f, hf, by rw [← Scalar.dyadic_value]; exact hsame, fun hzero => ?_⟩
  rw [hzero, Nat.cast_zero, zero_mul] at hsame
  rw [← hsame] at hone
  norm_num at hone

/-! ## §3. Scaling. -/

section Steps

variable {f : Dyadic} {c : ℚ} (hf : (f.num / f.den : ℚ) = c) (hc : 0 < c) {k : ℕ} (hk : k < 54)

include hf hc hk

/-- **One multiplication.** -/
theorem mul_near (hlow : (10 : ℚ) ^ (-54 : ℤ) ≤ c * 10 ^ k) (hhigh : c * 10 ^ k < 10 ^ (70 : ℤ)) :
    ∃ r, BinaryFormat.double.mul f (powerOfTen k) = some r ∧ Nears (k ≤ 22) (c * 10 ^ k) r := by
  obtain ⟨hpower, hexact⟩ := powerOfTen_near hk
  have hproduct : ((f.num * (powerOfTen k).num : ℕ) : ℚ) / (f.den * (powerOfTen k).den : ℕ) =
      c * ((powerOfTen k).num / (powerOfTen k).den) := by
    rw [← hf]
    push_cast
    field_simp
  -- the error of the power is that of the product
  have herror : |((f.num * (powerOfTen k).num : ℕ) : ℚ) / (f.den * (powerOfTen k).den : ℕ) - c * 10 ^ k| ≤
      9 / 8 * (c * 10 ^ k / 2 ^ 53) := by
    have hnonneg : (0 : ℚ) ≤ 10 ^ k / 2 ^ 53 := by positivity
    rw [hproduct, ← mul_sub, abs_mul, abs_of_pos hc]
    calc c * |((powerOfTen k).num / (powerOfTen k).den : ℚ) - 10 ^ k| ≤ c * (10 ^ k / 2 ^ 53) := by gcongr
      _ ≤ 9 / 8 * (c * (10 ^ k / 2 ^ 53)) := by linarith [mul_nonneg hc.le hnonneg]
      _ = 9 / 8 * (c * 10 ^ k / 2 ^ 53) := by ring
  obtain ⟨r, hr, hnear⟩ := round_near
    (Nat.mul_pos (Scalar.den_pos f) (Scalar.den_pos (powerOfTen k))) hlow hhigh herror
  rw [hproduct] at hnear
  exact ⟨r, hr, hnear.error, fun hk' => hnear.exact (by rw [hexact hk'])⟩

/-- **One division.** -/
theorem div_near (hlow : (10 : ℚ) ^ (-54 : ℤ) ≤ c / 10 ^ k) (hhigh : c / 10 ^ k < 10 ^ (70 : ℤ)) :
    ∃ r, BinaryFormat.double.div f (powerOfTen k) = some r ∧ Nears (k ≤ 22) (c / 10 ^ k) r := by
  obtain ⟨hpower, hexact⟩ := powerOfTen_near hk
  have hten : (0 : ℚ) < 10 ^ k := by positivity
  have hnum : 0 < (powerOfTen k).num :=
    Nat.pos_of_ne_zero (num_ne_zero hten (lt_of_le_of_lt hpower (by linarith)))
  have hpos : (0 : ℚ) < (powerOfTen k).num / (powerOfTen k).den :=
    div_pos (by exact_mod_cast hnum) (by exact_mod_cast Scalar.den_pos _)
  have hquotient : ((f.num * (powerOfTen k).den : ℕ) : ℚ) / (f.den * (powerOfTen k).num : ℕ) =
      c / ((powerOfTen k).num / (powerOfTen k).den) := by
    rw [← hf]
    push_cast
    field_simp
  -- the error of the power is that of the quotient, or little less
  have herror : |((f.num * (powerOfTen k).den : ℕ) : ℚ) / (f.den * (powerOfTen k).num : ℕ) - c / 10 ^ k| ≤
      9 / 8 * (c / 10 ^ k / 2 ^ 53) := by
    rw [hquotient]
    generalize ((powerOfTen k).num / (powerOfTen k).den : ℚ) = p at *
    obtain ⟨hbelow, habove⟩ := abs_le.1 hpower
    obtain ⟨v, hv⟩ : ∃ v, v = c / 10 ^ k := ⟨_, rfl⟩
    have hvpos : 0 < v := by
      rw [hv]
      exact div_pos hc hten
    have hcv : c = v * 10 ^ k := by rw [hv, div_mul_cancel₀ _ hten.ne']
    rw [← hv, hcv, abs_le]
    constructor
    · rw [le_sub_iff_add_le, le_div_iff₀ hpos]
      norm_num at *
      nlinarith
    · rw [sub_le_iff_le_add, div_le_iff₀ hpos]
      norm_num at *
      nlinarith
  obtain ⟨r, hr, hnear⟩ := round_near (Nat.mul_pos (Scalar.den_pos f) hnum) hlow hhigh herror
  rw [hquotient] at hnear
  exact ⟨r, hr, hnear.error, fun hk' => hnear.exact (by rw [hexact hk'])⟩

end Steps

/-- **Scaling is off by little**, and exact for decimals of 53 bits if the power of
    ten is a double. -/
theorem scale_near {c : ℕ} (hc : 0 < c) (hc' : c < 2 ^ 53) {s : ℤ} (hs : s.natAbs < 54) :
    ∃ r, scale c s = .ok r ∧ Nears (s.natAbs ≤ 22) (c * 10 ^ s) r := by
  obtain ⟨f, hf, hvalue, hne⟩ := natural_exact hc hc'
  have hcq : (1 : ℚ) ≤ c := by exact_mod_cast hc
  have hcq' : (c : ℚ) < 2 ^ 53 := by exact_mod_cast hc'
  have hlow : (10 : ℚ) ^ (-54 : ℤ) ≤ c * 10 ^ s := by
    calc (10 : ℚ) ^ (-54 : ℤ) ≤ 10 ^ s := zpow_le_zpow_right₀ (by norm_num) (by omega)
      _ ≤ c * 10 ^ s := le_mul_of_one_le_left (by positivity) hcq
  have hhigh : (c * 10 ^ s : ℚ) < 10 ^ (70 : ℤ) := by
    calc (c * 10 ^ s : ℚ) ≤ 2 ^ 53 * 10 ^ (53 : ℤ) := by
          gcongr
          · norm_num
          · omega
      _ < 10 ^ (70 : ℤ) := by norm_num
  obtain ⟨k, hk⟩ : ∃ k : ℕ, k = s.natAbs := ⟨_, rfl⟩
  have hrange : k ≤ greatestPower := by
    unfold greatestPower
    omega
  rw [← hk] at hs
  unfold scale
  simp only
  rw [hf, Option.getD_some, ← hk]
  by_cases hneg : s < 0
  · have hquotient : (c * 10 ^ s : ℚ) = c / 10 ^ k := by
      rw [show s = -(k : ℤ) by omega, zpow_neg, zpow_natCast, div_eq_mul_inv]
    rw [hquotient] at hlow hhigh ⊢
    obtain ⟨r, hr, hnear⟩ := div_near hvalue (by linarith) hs hlow hhigh
    rw [if_pos hneg, scaleDown, if_neg hne, if_pos hrange, hr]
    exact ⟨r, rfl, hnear⟩
  · have hproduct : (c * 10 ^ s : ℚ) = c * 10 ^ k := by
      rw [show s = (k : ℤ) by omega, zpow_natCast]
    rw [hproduct] at hlow hhigh ⊢
    obtain ⟨r, hr, hnear⟩ := mul_near hvalue (by linarith) hs hlow hhigh
    rw [if_neg hneg, if_neg hc.ne', show s.toNat = k by omega, if_neg (not_lt.2 hrange), hr]
    exact ⟨r, rfl, hnear⟩

/-- The doubtful decimals are read as if they were rounded once. -/
theorem doubtful_round : ∀ p ∈ doubtful,
    (scale p.1 p.2).toOption.map (fun r => BinaryFormat.single.round r.num r.den) =
      some (BinaryFormat.single.round (p.1 * 10 ^ p.2.toNat) (10 ^ (-p.2).toNat)) := by
  decide +kernel

/-! ## §4. The shortest decimal. -/

variable {d : Dyadic} {c : ℕ} {s : ℤ} (hknown : Shortest.Known d c s)

include hknown

/-- **A decimal of 25 bits** is rounded alike before and after it was scaled. -/
theorem round_of_few (hfew : c < 2 ^ 25) {r : Dyadic} (hscale : scale c s = .ok r) :
    BinaryFormat.single.round r.num r.den = some d := by
  obtain ⟨hpos, hlt, hexponent, hround, -⟩ := hknown
  obtain ⟨r', hr', hnear, hexact⟩ := scale_near hpos hlt hexponent
  obtain rfl : r' = r := Except.ok.inj (hr'.symm.trans hscale)
  have hv : (0 : ℚ) < c * 10 ^ s := by positivity
  have hden := Scalar.den_pos r'
  have hnum : r'.num ≠ 0 := num_ne_zero hv (lt_of_le_of_lt hnear (by linarith))
  have hvalue := Shortest.units_value c s
  -- a number of 25 bits between both would be near to the decimal
  have hbetween : (∃ h < 2 ^ 25, ∃ g : ℤ, |(c * 10 ^ s : ℚ) - (h : ℕ) * 2 ^ g| ≤
      |(r'.num / r'.den : ℚ) - c * 10 ^ s|) → BinaryFormat.single.round r'.num r'.den = some d := by
    rintro ⟨h, hh, g, hg⟩
    rcases eq_or_doubtful_of_near hpos hfew hh hexponent (hg.trans hnear) with ⟨heq, hs⟩ | hdoubtful
    · have hsame := hexact (by omega) h (lt_trans hh (by norm_num)) g heq
      exact (BinaryFormat.round_congr hden (by positivity) (hsame.trans hvalue.symm) _).trans hround
    · have := doubtful_round _ hdoubtful
      simp only [hscale] at this
      exact (Option.some.inj this).trans hround
  by_contra hne
  refine hne (Eq.trans ?_ hround)
  rcases le_total (r'.num / r'.den : ℚ) (c * 10 ^ s) with hle | hle
  · refine BinaryFormat.round_uncrossed _ hnum hden (by positivity) (by positivity)
      (by rwa [hvalue]) fun h hh g ⟨h1, h2⟩ => hne (hbetween ⟨h, hh, g, ?_⟩)
    rw [hvalue] at h2
    rw [abs_of_nonneg (by linarith), abs_of_nonpos (by linarith)]
    linarith
  · refine (BinaryFormat.round_uncrossed _ (by positivity) (by positivity) hnum hden
      (by rwa [hvalue]) fun h hh g ⟨h1, h2⟩ => hne (hbetween ⟨h, hh, g, ?_⟩)).symm
    rw [hvalue] at h1
    rw [abs_of_nonpos (by linarith), abs_of_nonneg (by linarith)]
    linarith

/-- **A decimal near to its number** is rounded to it after it was scaled. -/
theorem round_of_near (hfits : Fits d.mantissa d.exponent) (he : d.exponent ≤ 104)
    (hnear : |(c : ℚ) * 10 ^ s - d.mantissa * 2 ^ d.exponent| < (1 / 4 - 3 / 2 ^ 29) * 2 ^ d.exponent)
    {r : Dyadic} (hscale : scale c s = .ok r) : BinaryFormat.single.round r.num r.den = some d := by
  obtain ⟨hpos, hlt, hexponent, -, -⟩ := hknown
  obtain ⟨r', hr', herror, -⟩ := scale_near hpos hlt hexponent
  obtain rfl : r' = r := Except.ok.inj (hr'.symm.trans hscale)
  have hv : (0 : ℚ) < c * 10 ^ s := by positivity
  have hpow : (0 : ℚ) < 2 ^ d.exponent := by positivity
  have hm : (d.mantissa : ℚ) + 1 ≤ 2 ^ 24 := by exact_mod_cast hfits.mantissa_lt
  have hx : (d.mantissa : ℚ) * 2 ^ d.exponent ≤ (2 ^ 24 - 1) * 2 ^ d.exponent := by
    gcongr
    linarith
  generalize (c * 10 ^ s : ℚ) = v at *
  have hnum : r'.num ≠ 0 := num_ne_zero hv (lt_of_le_of_lt herror (by linarith))
  refine BinaryFormat.round_of_near hnum (Scalar.den_pos r') hfits he ?_
  rw [abs_lt] at hnear ⊢
  rw [abs_le] at herror
  norm_num at *
  constructor <;> linarith

end Number

/-! ## §5. Texts. -/

/-- **The parts of a text which means the shortest decimal** are read as the
    number. -/
theorem NumberText.Means.read {t : NumberText} {d : Dyadic} {c : ℕ} {s : ℤ} (h : t.Means c s)
    (hknown : Shortest.Known d c s) (hfits : Fits d.mantissa d.exponent) (he : d.exponent ≤ 104) :
    ∃ r, Number.ofText t = .ok (.double t.negative r) ∧
      BinaryFormat.single.round r.num r.den = some d := by
  obtain ⟨-, hdouble, k, hsignificand, hpower, hk⟩ := h
  have hpos : 0 < t.significand := by
    rw [hsignificand]
    exact Nat.mul_pos hknown.pos (by positivity)
  have hlt : t.significand < 2 ^ 53 := by
    rcases hk with rfl | ⟨-, hk⟩
    · rw [hsignificand, pow_zero, mul_one]
      exact hknown.lt
    · omega
  have hexponent : t.power.natAbs < 54 := by
    have := hknown.exponent_lt
    rcases hk with rfl | ⟨hk, -⟩ <;> omega
  obtain ⟨r, hscale, -, hexact⟩ := Number.scale_near hpos hlt hexponent
  refine ⟨r, ?_, ?_⟩
  · rw [Number.ofText_eq hdouble (lt_trans hlt (by decide)), hscale]
    rfl
  · rcases Nat.eq_zero_or_pos k with rfl | hkpos
    · -- the significand is that of the shortest decimal
      rw [hsignificand, hpower, pow_zero, mul_one, Nat.cast_zero, sub_zero] at hscale
      rcases hknown.near_or_few with hnear | hfew
      · exact Number.round_of_near hknown hfits he hnear hscale
      · exact Number.round_of_few hknown hfew hscale
    · -- the significand is ten times an integer, which is a double
      obtain ⟨hminus, hsmall⟩ := hk.resolve_left hkpos.ne'
      obtain ⟨i, rfl⟩ : ∃ i, k = i + 1 := Nat.exists_eq_succ_of_ne_zero hkpos.ne'
      have hvalue : (t.significand * 10 ^ t.power : ℚ) = (c * 10 ^ i : ℕ) := by
        rw [hsignificand, hminus, zpow_neg_one, pow_succ]
        push_cast
        field_simp
      have hsame : (t.significand * 10 ^ t.power : ℚ) = c * 10 ^ s := by
        rw [hvalue, show s = (i : ℤ) by omega, zpow_natCast]
        push_cast
        rfl
      have hread := hexact (by rw [hminus]; decide) (c * 10 ^ i)
        (by rw [hsignificand, pow_succ, ← mul_assoc] at hsmall; omega) 0 (by rw [hvalue, zpow_zero, mul_one])
      refine (BinaryFormat.round_congr (Scalar.den_pos r) (by positivity) ?_ _).trans hknown.rounds
      rw [hread, hsame, Shortest.units_value]

/-- **The text of a finite number is read as that number.** -/
theorem numberText_read {x : Scalar} (hx : x.isFinite = true) :
    ∃ n : Number, Writes (numberText x) (.number n) ∧ n.toScalar = x := by
  obtain ⟨d, hd, -⟩ := Scalar.exists_magnitude hx
  obtain ⟨hfits, he⟩ := Scalar.magnitude_fits hd
  have hread : ∀ {r : Dyadic}, BinaryFormat.single.round r.num r.den = some d →
      (Number.double x.isNegative r).toScalar = x := by
    intro r hr
    show Scalar.ofRatio x.isNegative r.num r.den = x
    unfold Scalar.ofRatio
    rw [hr]
    exact Scalar.withSign_ofMagnitude hd
  by_cases hzero : d.mantissa = 0
  · -- a zero is read as the zero of its sign
    obtain ⟨m, e⟩ := d
    obtain rfl : m = 0 := hzero
    obtain rfl : e = -149 := hfits.normal.resolve_left (by norm_num)
    refine ⟨.double x.isNegative ⟨0, -1074⟩, ?_, hread rfl⟩
    rw [numberText_zero hd rfl]
    refine number_writes (zero_wellFormed _) ?_
    have hsmall : (NumberText.mk x.isNegative ['0'] (some ['0']) none).significand < Number.wordBound :=
      show 0 < Number.wordBound by decide
    rw [Number.ofText_eq rfl hsmall]
    show (Except.ok (Number.scaleDown ⟨0, -1074⟩ 1)).map _ = _
    rw [Number.scaleDown, if_pos rfl]
    rfl
  · obtain ⟨t, hsign, hmeans, htext⟩ := numberText_means hd hzero
    obtain ⟨r, hr, hround⟩ := hmeans.read (Shortest.digits_known hfits he hzero rfl) hfits he
    refine ⟨.double x.isNegative r, ?_, hread hround⟩
    rw [htext]
    exact number_writes hmeans.wellFormed (by rw [hr, hsign])

end Json

end VectorIcon

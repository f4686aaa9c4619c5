/-
  VectorIcon.Proofs.Number.Conversion
  ────────────────────────────────
  **NUMBERS FROM QUOTIENTS, INTEGERS FROM NUMBERS.**

  `BinaryFormat.round` rounds a quotient in exact integer arithmetic.  It is the
  same rounding as that of the operations (`BinaryFormat.round_rounds`), so a
  number made of a quotient approximates it, and one made of an integer of 24
  bits is that integer.  The other way, a number is integral if its value is
  (`isIntegral_iff`), and truncation then gives that value; the nearest integer
  is the one less than one half away (`nearestInt?_eq`).
-/
import VectorIcon.Proofs.Number.Arithmetic

/-- A power of a number by its natural parts. -/
theorem Rat.ofNat_zpow (b : ℕ) [b.AtLeastTwo] (e : ℤ) :
    (ofNat(b) : ℚ) ^ e = ((ofNat(b) : ℕ) ^ e.toNat : ℕ) / ((ofNat(b) : ℕ) ^ (-e).toNat : ℕ) := by
  push_cast
  rw [← zpow_natCast, ← zpow_natCast, ← zpow_sub₀ (NeZero.ne _)]
  congr 1
  omega

namespace VectorIcon

open Float.Model Float.Model.UnpackedFloat

/-! ## §1. Rounding a quotient. -/

/-- The nearest natural is off by at most one half. -/
theorem divNearestEven_near (n : ℕ) {d : ℕ} (hd : 0 < d) :
    |(divNearestEven n d : ℚ) - n / d| ≤ 1 / 2 := by
  have hdq : (0 : ℚ) < d := by exact_mod_cast hd
  have hr : n % d < d := Nat.mod_lt n hd
  unfold divNearestEven
  simp only
  rw [div_eq_add_remainder n hd]
  generalize n / d = q
  generalize n % d = r at hr ⊢
  have hnonneg : (0 : ℚ) ≤ r / d := by positivity
  have hlt : (r / d : ℚ) < 1 := by
    rw [div_lt_one hdq]
    exact_mod_cast hr
  rw [abs_le]
  rcases Nat.lt_trichotomy (2 * r) d with h | h | h
  · have hhalf : (r / d : ℚ) < 1 / 2 := (div_lt_half_iff hd).2 h
    rw [if_pos h]
    constructor <;> linarith
  · -- a tie goes to the even neighbour
    have hhalf : (r / d : ℚ) = 1 / 2 := (div_eq_half_iff hd).2 h
    rw [if_neg (by omega), if_neg (by omega), hhalf]
    rcases even_neighbour q with hup | hup <;> rw [hup] <;> constructor <;> linarith
  · have hhalf : 1 / 2 < (r / d : ℚ) := (half_lt_div_iff hd).2 h
    rw [if_neg (by omega), if_pos h]
    push_cast
    constructor <;> linarith

namespace BinaryFormat

theorem reachesPower_iff (n : ℕ) {d : ℕ} (hd : 0 < d) (e : ℤ) :
    reachesPower n d e = true ↔ (2 : ℚ) ^ e ≤ n / d := by
  have hdq : (0 : ℚ) < d := by exact_mod_cast hd
  have hpow : (0 : ℚ) < (2 ^ (-e).toNat : ℕ) := by positivity
  unfold reachesPower
  rw [decide_eq_true_eq, Rat.ofNat_zpow, div_le_div_iff₀ hpow hdq]
  show d * 2 ^ e.toNat ≤ n * 2 ^ (-e).toNat ↔ _
  rw [mul_comm d]
  exact_mod_cast Iff.rfl

/-- **The leading exponent** is that of the greatest power of two below. -/
theorem leadingExponent_spec {n d : ℕ} (hn : 0 < n) (hd : 0 < d) :
    (2 : ℚ) ^ leadingExponent n d ≤ n / d ∧ (n / d : ℚ) < 2 ^ (leadingExponent n d + 1) := by
  have hdq : (0 : ℚ) < d := by exact_mod_cast hd
  -- the logarithms leave two powers open, and one comparison decides between them
  have hlow : (2 : ℚ) ^ ((n.log2 : ℤ) - d.log2 - 1) ≤ n / d := by
    rw [le_div_iff₀ hdq]
    calc (2 : ℚ) ^ ((n.log2 : ℤ) - d.log2 - 1) * d
        ≤ 2 ^ ((n.log2 : ℤ) - d.log2 - 1) * (2 ^ (d.log2 + 1) : ℕ) := by
          gcongr
          exact_mod_cast (Nat.lt_log2_self (n := d)).le
      _ = (2 ^ n.log2 : ℕ) := by
          push_cast
          rw [← zpow_natCast, ← zpow_natCast, ← zpow_add₀ (by norm_num)]
          congr 1
          push_cast
          ring
      _ ≤ n := by exact_mod_cast Nat.log2_self_le hn.ne'
  have hhigh : (n / d : ℚ) < 2 ^ ((n.log2 : ℤ) - d.log2 + 1) := by
    rw [div_lt_iff₀ hdq]
    calc (n : ℚ) < (2 ^ (n.log2 + 1) : ℕ) := by exact_mod_cast Nat.lt_log2_self
      _ = 2 ^ ((n.log2 : ℤ) - d.log2 + 1) * (2 ^ d.log2 : ℕ) := by
          push_cast
          rw [← zpow_natCast, ← zpow_natCast, ← zpow_add₀ (by norm_num)]
          congr 1
          push_cast
          ring
      _ ≤ 2 ^ ((n.log2 : ℤ) - d.log2 + 1) * d := by
          gcongr
          exact_mod_cast Nat.log2_self_le hd.ne'
  unfold leadingExponent
  simp only
  by_cases h : reachesPower n d ((n.log2 : ℤ) - d.log2) = true
  · rw [if_pos h]
    exact ⟨(reachesPower_iff n hd _).1 h, hhigh⟩
  · rw [if_neg h]
    refine ⟨hlow, ?_⟩
    rw [sub_add_cancel]
    exact lt_of_not_ge (mt (reachesPower_iff n hd _).2 h)

/-- Units are counted to the nearest. -/
theorem countUnits_near (n : ℕ) {d : ℕ} (hd : 0 < d) (e : ℤ) :
    |(countUnits n d e : ℚ) - n / d / 2 ^ e| ≤ 1 / 2 := by
  have hpos : 0 < d * 2 ^ e.toNat := by positivity
  have h := divNearestEven_near (n * 2 ^ (-e).toNat) hpos
  have hsame : (n / d : ℚ) / 2 ^ e = ((n * 2 ^ (-e).toNat : ℕ) : ℚ) / (d * 2 ^ e.toNat : ℕ) := by
    rw [Rat.ofNat_zpow]
    push_cast
    field_simp
  rw [hsame]
  exact h

/-- **A quotient is rounded to single precision**; none is left out unless it is
    huge. -/
theorem round_single (n : ℕ) {d : ℕ} (hd : 0 < d) :
    (∀ r, single.round n d = some r →
      Fits r.mantissa r.exponent ∧ r.exponent ≤ 104 ∧ Rounds (n / d) (r.mantissa * 2 ^ r.exponent)) ∧
    ((n / d : ℚ) < 2 ^ (127 : ℤ) → ∃ r, single.round n d = some r) := by
  unfold round
  by_cases hn : n = 0
  · rw [if_pos hn, hn]
    refine ⟨?_, fun _ => ⟨_, rfl⟩⟩
    rintro r hr
    cases hr
    refine ⟨⟨by norm_num, le_refl _, .inr rfl⟩, by show (-149 : ℤ) ≤ 104; norm_num, ?_⟩
    show Rounds ((0 : ℕ) / d) ((0 : ℕ) * _)
    rw [Nat.cast_zero, zero_div, zero_mul]
    exact Rounds.refl 0
  · rw [if_neg hn]
    obtain ⟨hlow, hhigh⟩ := leadingExponent_spec (Nat.pos_of_ne_zero hn) hd
    simp only
    generalize hlead : leadingExponent n d = lead at hlow hhigh
    generalize he : max (lead - ((24 : ℕ) : ℤ) + 1) (-149) = e
    rw [show max (lead - (single.precision : ℤ) + 1) single.minExponent = e from he]
    have hnear := countUnits_near n hd e
    generalize countUnits n d e = m at hnear
    have hnonneg : (0 : ℚ) ≤ n / d := by positivity
    -- the units are those of a mantissa of 24 bits, but never below the least exponent
    have hnormal : e = -149 ∨ (2 : ℚ) ^ (e + 23) ≤ n / d := by
      by_cases h : e = -149
      · exact .inl h
      · right
        rwa [show e + 23 = lead by omega]
    have hupper : (n / d : ℚ) < 2 ^ (e + 24) :=
      lt_of_lt_of_le hhigh (zpow_le_zpow_right₀ (by norm_num) (by omega))
    have hrounds : Rounds (n / d) (m * 2 ^ e) := Rounds.of_near hnonneg (by omega) hnormal hnear
    -- the mantissa and exponent after a carry
    have hparts : ∃ k f, (if m = Nat.pow 2 24 then (⟨Nat.pow 2 23, e + 1⟩ : Dyadic) else ⟨m, e⟩) = ⟨k, f⟩ ∧
        Fits k f ∧ f ≤ e + 1 ∧ Rounds (n / d) (k * 2 ^ f) := by
      rcases Fits.of_near (by omega) hnormal hupper hnear with hfits | rfl
      · have hne : m ≠ Nat.pow 2 24 := hfits.mantissa_lt.ne
        rw [if_neg hne]
        exact ⟨m, e, rfl, hfits, by omega, hrounds⟩
      · obtain ⟨hfits, hsame⟩ := Fits.carried (e := e) (by omega)
        rw [if_pos (by rfl)]
        exact ⟨2 ^ 23, e + 1, rfl, hfits, le_rfl, hsame ▸ hrounds⟩
    obtain ⟨k, f, hdyadic, hfits, hf, hresult⟩ := hparts
    rw [show (if m = Nat.pow 2 single.precision then (⟨Nat.pow 2 (single.precision - 1), e + 1⟩ : Dyadic)
      else ⟨m, e⟩) = ⟨k, f⟩ from hdyadic]
    simp only
    rw [show single.maxExponent = 104 from rfl]
    constructor
    · intro r hr
      by_cases hle : f ≤ 104
      · rw [if_pos hle] at hr
        cases hr
        exact ⟨hfits, hle, hresult⟩
      · rw [if_neg hle] at hr
        cases hr
    · -- a quotient below 2^127 is not lifted past the greatest exponent, carried or not
      intro hsmall
      have hlead127 : (2 : ℚ) ^ lead < 2 ^ (127 : ℤ) := lt_of_le_of_lt hlow hsmall
      have := (zpow_lt_zpow_iff_right₀ (by norm_num : (1 : ℚ) < 2)).1 hlead127
      rw [if_pos (by omega)]
      exact ⟨_, rfl⟩

end BinaryFormat

/-! ## §2. Numbers from quotients. -/

theorem Approximates.neg {z : Scalar} {x : ℚ} (h : Approximates z x) : Approximates (-z) (-x) := by
  constructor
  · intro hz
    rw [Scalar.isFinite_neg] at hz
    rw [Scalar.value_neg]
    exact (h.rounds hz).neg
  · intro hx
    rw [Scalar.isFinite_neg]
    exact h.finite (by rwa [abs_neg] at hx)

namespace Scalar

/-- The number of a magnitude unpacks to it. -/
theorem unpacked_ofMagnitude {r : Dyadic} (hfits : Fits r.mantissa r.exponent) (he : r.exponent ≤ 104) :
    unpacked (ofMagnitude r) = signedMantissa .positive r.mantissa r.exponent := by
  obtain ⟨m, e⟩ := r
  obtain ⟨hlt, hge, hnormal⟩ := hfits
  simp only at hlt hge hnormal he ⊢
  have hexponent : ((e + 149).toNat : ℤ) = e + 149 := Int.toNat_of_nonneg (by omega)
  unfold ofMagnitude
  simp only
  generalize (e + 149).toNat = k at hexponent
  have hk : k ≤ 253 := by omega
  have hbits : (UInt32.ofNat (k * 0x800000 + m)).toNat = k * 0x800000 + m := by
    rw [UInt32.toNat_ofNat']
    omega
  rw [unpacked_ofBits, hbits]
  have hsign : signOf (decide (0x80000000 ≤ k * 0x800000 + m)) = .positive := by
    unfold signOf
    rw [if_neg (by rw [decide_eq_true_eq]; omega)]
  rw [hsign]
  unfold ofFields
  rcases hnormal with hbig | rfl
  · -- the leading bit of the mantissa raises the exponent field
    have hfield : (k * 0x800000 + m) / 0x800000 % 256 = k + 1 := by omega
    have hfraction : (k * 0x800000 + m) % 0x800000 = m - 0x800000 := by omega
    have hmantissa : 2 ^ 23 + (m - 0x800000) = m := by omega
    have hback : ((k + 1 : ℕ) : ℤ) - 150 = e := by omega
    rw [hfield, hfraction, if_neg (by omega), if_neg (by omega), hmantissa, hback]
  · obtain rfl : k = 0 := by omega
    by_cases hbig : 2 ^ 23 ≤ m
    · have hfield : (0 * 0x800000 + m) / 0x800000 % 256 = 1 := by omega
      have hfraction : (0 * 0x800000 + m) % 0x800000 = m - 0x800000 := by omega
      have hmantissa : 2 ^ 23 + (m - 0x800000) = m := by omega
      rw [hfield, hfraction, if_neg (by omega), if_neg (by omega), hmantissa]
      rfl
    · have hfield : (0 * 0x800000 + m) / 0x800000 % 256 = 0 := by omega
      have hfraction : (0 * 0x800000 + m) % 0x800000 = m := by omega
      rw [hfield, hfraction, if_neg (by omega), if_pos rfl]

/-- **A number made of a quotient approximates it.** -/
theorem ofRatio_approximates (negative : Bool) (n : ℕ) {d : ℕ} (hd : 0 < d) :
    Approximates (ofRatio negative n d) ((if negative then -1 else 1) * (n / d : ℚ)) := by
  have hnonneg : (0 : ℚ) ≤ n / d := by positivity
  obtain ⟨hround, hsome⟩ := BinaryFormat.round_single n hd
  have hpositive : Approximates
      (((BinaryFormat.single.round n d).map ofMagnitude).getD infinity) (n / d : ℚ) := by
    cases hr : BinaryFormat.single.round n d with
    | none =>
      have hinfinite : isFinite infinity = false := rfl
      constructor
      · intro h
        rw [show isFinite (((none : Option Dyadic).map ofMagnitude).getD infinity) = _ from hinfinite] at h
        cases h
      · intro h
        rw [abs_of_nonneg hnonneg] at h
        obtain ⟨r, hr'⟩ := hsome (by exact_mod_cast h)
        rw [hr] at hr'
        cases hr'
    | some r =>
      obtain ⟨hfits, he, hrounds⟩ := hround r hr
      have hunpacked := unpacked_ofMagnitude hfits he
      show Approximates (ofMagnitude r) _
      constructor
      · intro _
        rw [value_eq, hunpacked, valueOf_signedMantissa]
        exact hrounds
      · intro _
        rw [isFinite_eq, hunpacked, isFinite_signedMantissa]
  unfold ofRatio withSign
  cases negative with
  | false =>
    rw [if_neg Bool.false_ne_true, if_neg Bool.false_ne_true, one_mul]
    exact hpositive
  | true =>
    rw [if_pos rfl, if_pos rfl, neg_one_mul]
    exact hpositive.neg

/-- **An integer of 24 bits is made exactly.** -/
theorem ofInt_exact {n : ℤ} (h : |n| < 2 ^ 24) : isFinite (ofInt n) = true ∧ (ofInt n).value = n := by
  have happrox := ofRatio_approximates (decide (n < 0)) n.natAbs (d := 1) one_pos
  have hsame : (if decide (n < 0) = true then (-1 : ℚ) else 1) * ((n.natAbs : ℕ) / (1 : ℕ)) = n := by
    rw [Nat.cast_one, div_one]
    by_cases hn : n < 0
    · rw [if_pos (decide_eq_true hn), Nat.cast_natAbs, abs_of_neg hn]
      push_cast
      ring
    · rw [if_neg (by rwa [decide_eq_true_eq]), one_mul, Nat.cast_natAbs, abs_of_nonneg (by omega)]
  rw [hsame] at happrox
  have hbound : |(n : ℚ)| < 2 ^ 127 := by
    have : |(n : ℚ)| < 2 ^ 24 := by exact_mod_cast h
    exact this.trans (by norm_num)
  exact happrox.exact_of_short (Short.ofInt h) hbound

/-! ## §3. Integers from numbers. -/

/-- A magnitude is the quotient of its natural parts. -/
theorem dyadic_value (d : Dyadic) : (d.mantissa : ℚ) * 2 ^ d.exponent = d.num / d.den := by
  rw [Rat.ofNat_zpow]
  unfold Dyadic.num Dyadic.den
  show _ = ((d.mantissa * 2 ^ d.exponent.toNat : ℕ) : ℚ) / (2 ^ (-d.exponent).toNat : ℕ)
  push_cast
  ring

theorem den_pos (d : Dyadic) : 0 < d.den := Nat.pow_pos (by norm_num)

/-- A finite number has a magnitude. -/
theorem exists_magnitude {x : Scalar} (h : isFinite x = true) :
    ∃ d, x.magnitude? = some d ∧
      x.value = (if x.isNegative then -1 else 1) * (d.mantissa * 2 ^ d.exponent : ℚ) := by
  unfold isFinite at h
  have h255 : x.biasedExponent ≠ 255 := bne_iff_ne.1 h
  have hsome : ∃ d, x.magnitude? = some d := by
    unfold magnitude?
    simp only
    rw [if_neg h255]
    split <;> exact ⟨_, rfl⟩
  obtain ⟨d, hd⟩ := hsome
  refine ⟨d, hd, ?_⟩
  unfold value
  rw [hd]
  simp only
  rw [mul_assoc]

theorem isFinite_of_magnitude {x : Scalar} {d : Dyadic} (h : x.magnitude? = some d) :
    isFinite x = true := by
  unfold magnitude? at h
  unfold isFinite
  by_cases h255 : x.biasedExponent = 255
  · simp only at h
    rw [if_pos h255] at h
    cases h
  · exact bne_iff_ne.2 h255

/-- The floor of a magnitude whose value is a natural. -/
theorem floor_eq {d : Dyadic} {n : ℕ} (h : (d.mantissa : ℚ) * 2 ^ d.exponent = n) :
    d.num % d.den = 0 ∧ d.floor = n := by
  have hden : (d.den : ℚ) ≠ 0 := by exact_mod_cast (den_pos d).ne'
  rw [dyadic_value, div_eq_iff hden] at h
  have hnum : d.num = n * d.den := by exact_mod_cast h
  unfold Dyadic.floor
  rw [hnum]
  exact ⟨Nat.mul_mod_left n d.den, Nat.mul_div_left n (den_pos d)⟩

/-- The magnitude of a number with an integral value. -/
theorem magnitude_of_integral {x : Scalar} {d : Dyadic} {n : ℤ}
    (hvalue : x.value = (if x.isNegative then -1 else 1) * (d.mantissa * 2 ^ d.exponent : ℚ))
    (hn : x.value = n) :
    (d.mantissa : ℚ) * 2 ^ d.exponent = n.natAbs ∧ x.signed n.natAbs = n := by
  have hnonneg : (0 : ℚ) ≤ d.mantissa * 2 ^ d.exponent := by positivity
  rw [hn] at hvalue
  unfold signed
  by_cases hneg : x.isNegative = true
  · rw [if_pos hneg] at hvalue ⊢
    have hle : n ≤ 0 := by
      have : (n : ℚ) ≤ 0 := by linarith
      exact_mod_cast this
    refine ⟨?_, by omega⟩
    rw [Nat.cast_natAbs, abs_of_nonpos hle]
    push_cast
    linarith
  · rw [if_neg hneg] at hvalue ⊢
    have hge : 0 ≤ n := by
      have : (0 : ℚ) ≤ n := by linarith
      exact_mod_cast this
    refine ⟨?_, by omega⟩
    rw [Nat.cast_natAbs, abs_of_nonneg hge]
    linarith

/-- **A number is integral if its value is.** -/
theorem isIntegral_iff (x : Scalar) :
    x.isIntegral = true ↔ isFinite x = true ∧ ∃ n : ℤ, x.value = n := by
  constructor
  · intro h
    unfold isIntegral at h
    cases hmag : x.magnitude? with
    | none =>
      rw [hmag] at h
      cases h
    | some d =>
      rw [hmag] at h
      have hfinite := isFinite_of_magnitude hmag
      obtain ⟨d', hd', hvalue⟩ := exists_magnitude hfinite
      rw [hmag] at hd'
      cases hd'
      refine ⟨hfinite, ?_⟩
      have hmod : d.num % d.den = 0 := beq_iff_eq.1 h
      -- no remainder: the value is the quotient of the natural parts
      obtain ⟨q, hq⟩ := Nat.dvd_of_mod_eq_zero hmod
      have hden : (d.den : ℚ) ≠ 0 := by exact_mod_cast (den_pos d).ne'
      have hmagnitude : (d.mantissa : ℚ) * 2 ^ d.exponent = q := by
        rw [dyadic_value, hq]
        push_cast
        field_simp
      rw [hvalue, hmagnitude]
      by_cases hneg : x.isNegative = true
      · exact ⟨-q, by rw [if_pos hneg]; push_cast; ring⟩
      · exact ⟨q, by rw [if_neg hneg]; push_cast; ring⟩
  · rintro ⟨hfinite, n, hn⟩
    obtain ⟨d, hmag, hvalue⟩ := exists_magnitude hfinite
    obtain ⟨hd, -⟩ := magnitude_of_integral hvalue hn
    unfold isIntegral
    rw [hmag]
    exact beq_iff_eq.2 (floor_eq hd).1

/-- **Truncation keeps an integral value.** -/
theorem truncate_eq {x : Scalar} (hfinite : isFinite x = true) {n : ℤ} (hn : x.value = n) :
    x.truncate = n := by
  obtain ⟨d, hmag, hvalue⟩ := exists_magnitude hfinite
  obtain ⟨hd, hsigned⟩ := magnitude_of_integral hvalue hn
  unfold truncate
  rw [hmag]
  show x.signed d.floor = n
  rw [(floor_eq hd).2]
  exact hsigned

end Scalar

/-- What is less than one half away is the nearest. -/
theorem divNearestUp_eq {n d : ℕ} {k : ℤ} (hd : 0 < d) (h : |(n / d : ℚ) - k| < 1 / 2) :
    (divNearestUp n d : ℤ) = k := by
  have hdq : (0 : ℚ) < d := by exact_mod_cast hd
  have hnonneg : (0 : ℚ) ≤ n / d := by positivity
  obtain ⟨hlow, hhigh⟩ := abs_lt.1 h
  have hk : 0 ≤ k := by
    have hq : (-1 : ℚ) < k := by linarith
    have hint : -1 < k := by exact_mod_cast hq
    omega
  lift k to ℕ using hk
  rw [Int.cast_natCast] at hlow hhigh
  have hbelow : (k : ℚ) * (2 * d) ≤ 2 * n + d := by
    have hle : (k - 1 / 2 : ℚ) ≤ n / d := by linarith
    rw [le_div_iff₀ hdq] at hle
    linarith
  have habove : (2 * n + d : ℚ) < (k + 1) * (2 * d) := by
    have hlt : (n / d : ℚ) < k + 1 / 2 := by linarith
    rw [div_lt_iff₀ hdq] at hlt
    linarith
  unfold divNearestUp
  exact_mod_cast Nat.div_eq_of_lt_le (by exact_mod_cast hbelow) (by exact_mod_cast habove)

namespace Scalar

/-- **The nearest integer** is the one less than one half away. -/
theorem nearestInt?_eq {x : Scalar} (hfinite : isFinite x = true) {n : ℤ}
    (h : |x.value - n| < 1 / 2) : x.nearestInt? = some n := by
  obtain ⟨d, hmag, hvalue⟩ := exists_magnitude hfinite
  rw [dyadic_value] at hvalue
  unfold nearestInt?
  rw [hmag]
  apply congrArg some
  show (if x.isNegative then -(divNearestUp d.num d.den : ℤ) else divNearestUp d.num d.den) = n
  by_cases hneg : x.isNegative = true
  · -- the magnitude is near to the negated integer
    rw [if_pos hneg] at hvalue
    have hmirrored : |(d.num / d.den : ℚ) - (-n : ℤ)| < 1 / 2 := by
      rw [hvalue, ← abs_neg] at h
      push_cast
      rwa [show (d.num / d.den : ℚ) - -(n : ℚ) = -(-1 * (d.num / d.den) - n) by ring]
    rw [if_pos hneg, divNearestUp_eq (den_pos d) hmirrored, neg_neg]
  · rw [if_neg hneg, one_mul] at hvalue
    rw [hvalue] at h
    rw [if_neg hneg, divNearestUp_eq (den_pos d) h]

end Scalar

end VectorIcon

/-
  VectorIcon.Proofs.Icon.Fraction
  ────────────────────────────────
  **A ZERO-TO-ONE NUMBER IS WRITTEN AS NARROW AS ANY WORD CAN MEAN IT.**

  A word of one byte means a quotient `k / 120`, one of two bytes a quotient
  `m / 15120`; these are rounded, and 126 of the finer ones make a coarse one
  even after rounding (`shortFraction_eq`).  The writer finds the numerator by a
  multiplication which is rounded as well.  Both errors together are far below
  one half, so it finds the numerator of every number which is such a quotient
  (`fraction?_iff`), and:

      zeroToOneSize_narrowest — how many bytes a zero-to-one number takes, told
                                by the quotients and by the words which mean it

  Of a finite rotation, the fraction of the turn is such a number: it lies
  between zero and one, and is written as narrow as possible.
-/
import VectorIcon.Proofs.Icon.Angle
import VectorIcon.Proofs.Icon.Width

namespace VectorIcon

theorem Scalar.finite_15120 : isFinite 15120.0 = true ∧ (15120.0 : Scalar).value = 15120 :=
  literal .positive 0xec4000 (-10) ⟨by norm_num, rfl⟩
    (by norm_num [Float.Model.UnpackedFloat.Sign.apply])

namespace Icon

open Word (shortFraction longFraction)

/-! ## §1. The numerator is found again. -/

/-- A fraction is off by the rounding of one division. -/
theorem longFraction_error {m : ℕ} (hm : m < 16384) :
    (longFraction m).isFinite = true ∧
      |(longFraction m).value - m / 15120| ≤ 1 / 2 ^ 23 := by
  obtain ⟨h15120, hv15120⟩ := Scalar.finite_15120
  obtain ⟨hint, hvint⟩ := Scalar.ofInt_exact (n := (m : ℤ)) (by rw [abs_lt]; omega)
  rw [Int.cast_natCast] at hvint
  have hquotient := Scalar.div_approximates hint h15120 (by rw [hv15120]; norm_num)
  rw [hvint, hv15120] at hquotient
  have hsmall : (m : ℚ) / 15120 ≤ 16384 / 15120 := by
    gcongr
    exact_mod_cast hm.le
  have hmagnitude : |(m : ℚ) / 15120| = m / 15120 := abs_of_nonneg (by positivity)
  have hfinite := hquotient.finite (by rw [hmagnitude]; linarith)
  have herror := (hquotient.rounds hfinite).error_le
  rw [hmagnitude] at herror
  have htiny : (2 : ℚ) ^ (-150 : ℤ) ≤ 1 / 2 ^ 30 := by norm_num
  refine ⟨hfinite, herror.trans ?_⟩
  linarith

/-- **The numerator of a fraction is found**: neither the rounding of the fraction
    nor that of the product brings it near to another integer. -/
theorem nearest_longFraction {m : ℕ} (hm : m < 16384) {x : Scalar} (hx : (longFraction m).Agrees x) :
    (x * 15120.0).nearestInt? = some (m : ℤ) := by
  obtain ⟨h15120, hv15120⟩ := Scalar.finite_15120
  obtain ⟨hfinite, herror⟩ := longFraction_error hm
  rw [hx.isFinite] at hfinite
  rw [hx.value] at herror
  have hmq : (m : ℚ) < 16384 := by exact_mod_cast hm
  -- the rounding of the fraction, as many times greater
  have hnear : |x.value * 15120 - m| ≤ 15120 / 2 ^ 23 := by
    have hfactor : x.value * 15120 - m = (x.value - m / 15120) * 15120 := by ring
    rw [hfactor, abs_mul, abs_of_pos (show (0 : ℚ) < 15120 by norm_num)]
    linarith
  have hproduct : |x.value * 15120| ≤ 16385 := by
    have hsum := abs_sub_abs_le_abs_sub (x.value * 15120) m
    rw [Nat.abs_cast] at hsum
    linarith
  -- the rounding of the product
  have happrox := Scalar.mul_approximates hfinite h15120
  rw [hv15120] at happrox
  have hscaled := happrox.finite (hproduct.trans_lt (by norm_num))
  have hrounding := (happrox.rounds hscaled).error_le
  have htiny : (2 : ℚ) ^ (-150 : ℤ) ≤ 1 / 2 ^ 30 := by norm_num
  refine Scalar.nearestInt?_eq hscaled ?_
  have hsum := abs_sub_le (x * 15120.0 : Scalar).value (x.value * 15120) m
  rw [Int.cast_natCast]
  linarith

/-- **The fraction of two bytes** is found whenever there is one. -/
theorem fraction?_iff {x : Scalar} {n : ℕ} :
    Word.fraction? x = some n ↔ n < 16384 ∧ (longFraction n == x) = true := by
  refine ⟨fraction?_spec, fun ⟨hn, hsame⟩ => ?_⟩
  unfold Word.fraction?
  rw [nearest_longFraction hn (.inl hsame)]
  exact if_pos (Bool.and_eq_true_iff.2 ⟨decide_eq_true hn, hsame⟩)

/-! ## §2. Coarse and fine fractions. -/

/-- Coarse fractions are fine ones, rounded alike. -/
theorem shortFraction_eq {k : ℕ} (hk : k < 128) : shortFraction k = longFraction (126 * k) := by
  have hall : ∀ k : Fin 128, shortFraction k = longFraction (126 * k) := by decide +kernel
  exact hall ⟨k, hk⟩

/-- A number of one byte: a multiple of 1/120, rounded. -/
def IsCoarse (x : Scalar) : Prop := ∃ k < 128, (shortFraction k == x) = true

/-- A number of one or two bytes: a multiple of 1/15120, rounded. -/
def IsFine (x : Scalar) : Prop := ∃ m < 16384, (longFraction m == x) = true

/-- The width of a zero-to-one number follows the coarsest fractions it is among. -/
theorem zeroToOneSize_cases (x : Scalar) :
    IsCoarse x ∧ zeroToOneSize x = 1 ∨
      ¬IsCoarse x ∧ IsFine x ∧ zeroToOneSize x = 2 ∨
      ¬IsCoarse x ∧ ¬IsFine x ∧ zeroToOneSize x = 4 := by
  -- a coarse fraction is found as the fine one which it is
  have hfound (k : ℕ) (hk : k < 128) (hsame : (shortFraction k == x) = true) :
      Word.fraction? x = some (126 * k) := by
    rw [shortFraction_eq hk] at hsame
    exact fraction?_iff.2 ⟨by omega, hsame⟩
  unfold zeroToOneSize Word.ofZeroToOne
  cases hfraction : Word.fraction? x with
  | none =>
    refine .inr (.inr ⟨?_, ?_, rfl⟩)
    · rintro ⟨k, hk, hsame⟩
      rw [hfound k hk hsame] at hfraction
      cases hfraction
    · rintro ⟨m, hm, hsame⟩
      rw [fraction?_iff.2 ⟨hm, hsame⟩] at hfraction
      cases hfraction
  | some n =>
    obtain ⟨hn, hlong⟩ := fraction?_iff.1 hfraction
    simp only
    by_cases hcoarse : IsCoarse x
    · obtain ⟨k, hk, hsame⟩ := hcoarse
      obtain rfl : 126 * k = n := by
        rw [hfound k hk hsame] at hfraction
        exact Option.some.inj hfraction
      have hnumerator : 126 * k / 126 = k := Nat.mul_div_cancel_left k (by norm_num)
      refine .inl ⟨⟨k, hk, hsame⟩, ?_⟩
      rw [hnumerator, if_pos]
      · rfl
      · simp [hk, hsame]
    · refine .inr (.inl ⟨hcoarse, ⟨n, hn, hlong⟩, ?_⟩)
      rw [if_neg]
      · rfl
      · rw [Bool.and_eq_true, Bool.and_eq_true, decide_eq_true_eq, decide_eq_true_eq]
        rintro ⟨⟨-, hshort⟩, hsame⟩
        exact hcoarse ⟨n / 126, hshort, hsame⟩

/-! ## §3. What narrow words mean. -/

/-- Words of one byte mean coarse fractions. -/
theorem IsCoarse.of_word {w : Word} {x : Scalar} (h : w.size < 2) (hx : (w.zeroToOne == x) = true) :
    IsCoarse x := by
  cases w with
  | one b => exact ⟨_, payload_one_lt b, hx⟩
  | two | four => simp [Word.size] at h

/-- Words of one or two bytes mean fine fractions. -/
theorem exists_longFraction {w : Word} (h : w.size < 4) :
    ∃ m < 16384, w.zeroToOne = longFraction m := by
  cases w with
  | one b =>
    have hpayload := payload_one_lt b
    exact ⟨_, by omega, shortFraction_eq hpayload⟩
  | two w => exact ⟨_, payload_two_lt w, rfl⟩
  | four => simp [Word.size] at h

theorem IsFine.of_word {w : Word} {x : Scalar} (h : w.size < 4) (hx : (w.zeroToOne == x) = true) :
    IsFine x := by
  obtain ⟨m, hm, hmeans⟩ := exists_longFraction h
  exact ⟨m, hm, hmeans ▸ hx⟩

/-- **No narrower word means the number.** -/
theorem zeroToOneSize_le {x y : Scalar} {bs : List UInt8} (h : Icon.zeroToOne bs = .ok (y, []))
    (hyx : (y == x) = true) : zeroToOneSize x ≤ bs.length := by
  obtain ⟨w, hsize, rfl⟩ := word_of_read Word.zeroToOne h
  rw [← hsize]
  by_contra hnarrow
  rw [not_le] at hnarrow
  rcases zeroToOneSize_cases x with ⟨-, h1⟩ | ⟨hcoarse, -, h2⟩ | ⟨-, hfine, h4⟩
  · rw [h1] at hnarrow
    cases w <;> simp [Word.size] at hnarrow
  · exact hcoarse (.of_word (h2 ▸ hnarrow) hyx)
  · exact hfine (.of_word (h4 ▸ hnarrow) hyx)

/-- The only fraction which is a zero is positive. -/
theorem longFraction_zero {m : ℕ} (hm : m < 16384) {s : Float.Model.UnpackedFloat.Sign}
    (h : (longFraction m).unpacked = .zero s) : s = .positive := by
  obtain ⟨-, herror⟩ := longFraction_error hm
  rw [Scalar.value_eq, h] at herror
  -- other fractions are above their error
  have hzero : m = 0 := by
    have hnonneg : (0 : ℚ) ≤ m / 15120 := by positivity
    have hsmall : (m : ℚ) / 15120 ≤ 1 / 2 ^ 23 := by
      rw [show valueOf (.zero s) - (m : ℚ) / 15120 = -(m / 15120) from zero_sub _, abs_neg,
        abs_of_nonneg hnonneg] at herror
      exact herror
    have hlt : (m : ℚ) < 1 := by linarith
    exact Nat.lt_one_iff.1 (by exact_mod_cast hlt)
  have hpositive : (longFraction 0).unpacked = .zero .positive := rfl
  rw [hzero, hpositive] at h
  cases h
  rfl

/-- **What is written in one or two bytes is read back**, minus zero as zero. -/
theorem recoverZeroToOne_exact {x : Scalar} (h : zeroToOneSize x ≤ 2) :
    (recoverZeroToOne x == x) = true ∧ (x ≠ -0.0 → recoverZeroToOne x = x) := by
  rcases recoverZeroToOne_sized x with ⟨-, hsame⟩ | ⟨h4, -⟩
  · refine ⟨hsame, fun hx => ?_⟩
    apply Scalar.unpacked_injective
    rcases (Scalar.agrees_iff _ _).1 (.inl hsame) with heq | ⟨s, s', hs, hs'⟩
    · exact heq
    · obtain ⟨m, hm, hmeans⟩ : ∃ m < 16384, recoverZeroToOne x = longFraction m :=
        exists_longFraction (show zeroToOneSize x < 4 by omega)
      rw [hmeans] at hs ⊢
      obtain rfl := longFraction_zero hm hs
      cases s' with
      | positive => rw [hs, hs']
      | negative => exact absurd (Scalar.unpacked_injective (hs'.trans rfl)) hx
  · omega

/-! ## §4. The width which is written. -/

/-- **A zero-to-one number takes the fewest bytes of all words which mean it**: one
    byte if it is a quotient `k / 120`, two if it is no such quotient but one
    `m / 15120`, and four otherwise.  In the first two cases it is read back, in
    the third within four units of 2^-23 if it is a normal number.  What an arc
    writes for a finite rotation is such a number, between zero and one. -/
theorem zeroToOneSize_narrowest :
    (∀ v : Scalar,
      (zeroToOneSize v = 1 ↔ ∃ k < 128, (Scalar.ofInt (k : ℕ) / 120.0 == v) = true) ∧
      (zeroToOneSize v = 2 ↔ (¬∃ k < 128, (Scalar.ofInt (k : ℕ) / 120.0 == v) = true) ∧
        ∃ m < 16384, (Scalar.ofInt (m : ℕ) / 15120.0 == v) = true) ∧
      (zeroToOneSize v = 4 ↔ (¬∃ k < 128, (Scalar.ofInt (k : ℕ) / 120.0 == v) = true) ∧
        ¬∃ m < 16384, (Scalar.ofInt (m : ℕ) / 15120.0 == v) = true) ∧
      (zeroToOneBytes v).length = zeroToOneSize v ∧
      (∃ y, Icon.zeroToOne (zeroToOneBytes v) = .ok (y, []) ∧
        (zeroToOneSize v ≤ 2 → (y == v) = true ∧ (v ≠ -0.0 → y = v)) ∧
        (zeroToOneSize v = 4 → v.isFinite = true → v.biasedExponent ≠ 0 →
          y.isFinite = true ∧ |y.value - v.value| ≤ 4 * 2 ^ (-23 : ℤ) * |v.value|)) ∧
      ∀ bs y, Icon.zeroToOne bs = .ok (y, []) → (y == v) = true → zeroToOneSize v ≤ bs.length) ∧
    ∀ (pen : Pen) (t : Transform) (f : Frame) (shape : ArcShape) (target : Point),
      shape.rotation.isFinite = true →
      ∃ g p, (pen.draw t (.arcTo f shape target)).1 =
          [.arc g (t.applyVector shape.radii) (shape.rotation.withinTurn / Scalar.turn) shape.large
            shape.sweep p] ∧
        0.0 ≤ shape.rotation.withinTurn / Scalar.turn ∧ shape.rotation.withinTurn / Scalar.turn ≤ 1.0 ∧
        ∀ bs y, Icon.zeroToOne bs = .ok (y, []) → (y == shape.rotation.withinTurn / Scalar.turn) = true →
          (zeroToOneBytes (shape.rotation.withinTurn / Scalar.turn)).length ≤ bs.length := by
  constructor
  · intro v
    have hread : Icon.zeroToOne (zeroToOneBytes v) = .ok (recoverZeroToOne v, []) := (zeroToOne_reads v).alone
    have hreal (h : zeroToOneSize v = 4) (hfinite : v.isFinite = true) (hnormal : v.biasedExponent ≠ 0) :
        (recoverZeroToOne v).isFinite = true ∧
          |(recoverZeroToOne v).value - v.value| ≤ 4 * 2 ^ (-23 : ℤ) * |v.value| := by
      rcases recoverZeroToOne_sized v with ⟨h2, -⟩ | ⟨-, hreal⟩
      · omega
      · rw [hreal]
        exact ⟨(real_error hfinite).1, real_error_units hfinite hnormal⟩
    have hwidth : (zeroToOneSize v = 1 ↔ IsCoarse v) ∧ (zeroToOneSize v = 2 ↔ ¬IsCoarse v ∧ IsFine v) ∧
        (zeroToOneSize v = 4 ↔ ¬IsCoarse v ∧ ¬IsFine v) := by
      rcases zeroToOneSize_cases v with ⟨hcoarse, h⟩ | ⟨hcoarse, hfine, h⟩ | ⟨hcoarse, hfine, h⟩
      · simp [h, hcoarse]
      · simp [h, hcoarse, hfine]
      · simp [h, hcoarse, hfine]
    exact ⟨hwidth.1, hwidth.2.1, hwidth.2.2, Word.length_bytes _,
      ⟨_, hread, recoverZeroToOne_exact, hreal⟩, fun bs y => zeroToOneSize_le⟩
  · intro pen t f shape target hrotation
    obtain ⟨hfinite, hlow, hhigh⟩ := Scalar.fraction_bounds hrotation
    obtain ⟨hzero, hvzero⟩ := Scalar.finite_zero
    obtain ⟨hone, hvone⟩ := Scalar.finite_1
    refine ⟨_, _, rfl, ?_, ?_, fun bs y h hy => ?_⟩
    · rw [Scalar.le_iff hzero hfinite, hvzero]
      exact hlow
    · rw [Scalar.le_iff hfinite hone, hvone]
      exact hhigh
    · exact (Word.length_bytes _).trans_le (zeroToOneSize_le h hy)

/-- A tenth in one byte, a number in four, and a rotation which is negative. -/
theorem zeroToOneSize_narrowest_tenth :
    (zeroToOneSize 0.1 ≤ 2 ∧ (0.1 : Scalar) ≠ -0.0 ∧
      Icon.zeroToOne (zeroToOneBytes 0.1) = .ok (0.1, [])) ∧
    (zeroToOneSize 0.123456 = 4 ∧ Scalar.isFinite 0.123456 = true ∧ Scalar.biasedExponent 0.123456 ≠ 0 ∧
      ∃ y, Icon.zeroToOne (zeroToOneBytes 0.123456) = .ok (y, []) ∧
        |y.value - (0.123456 : Scalar).value| ≤ 4 * 2 ^ (-23 : ℤ) * |(0.123456 : Scalar).value|) ∧
    (Icon.zeroToOne [0x18] = .ok (0.1, []) ∧ ((0.1 : Scalar) == 0.1) = true ∧ zeroToOneSize 0.1 ≤ 1) ∧
    Scalar.isFinite (-45.0) = true ∧
    0.0 ≤ Scalar.withinTurn (-45.0) / Scalar.turn ∧ Scalar.withinTurn (-45.0) / Scalar.turn ≤ 1.0 := by
  obtain ⟨hall, harcs⟩ := zeroToOneSize_narrowest
  have htenth : zeroToOneSize 0.1 ≤ 2 := by decide +kernel
  have hpositive : (0.1 : Scalar) ≠ -0.0 := by decide +kernel
  have hfour : zeroToOneSize 0.123456 = 4 := by decide +kernel
  have hfinite : Scalar.isFinite 0.123456 = true := by decide +kernel
  have hnormal : Scalar.biasedExponent 0.123456 ≠ 0 := by decide +kernel
  have hrotation : Scalar.isFinite (-45.0) = true := by decide +kernel
  have hshort : Icon.zeroToOne [0x18] = .ok (0.1, []) := by rfl
  have hself : ((0.1 : Scalar) == 0.1) = true := by decide +kernel
  refine ⟨⟨htenth, hpositive, ?_⟩, ⟨hfour, hfinite, hnormal, ?_⟩, ⟨hshort, hself, ?_⟩, hrotation, ?_⟩
  · obtain ⟨-, -, -, -, ⟨y, hread, hexact, -⟩, -⟩ := hall 0.1
    rwa [(hexact htenth).2 hpositive] at hread
  · obtain ⟨-, -, -, -, ⟨y, hread, -, hclose⟩, -⟩ := hall 0.123456
    exact ⟨y, hread, (hclose hfour hfinite hnormal).2⟩
  · exact (hall 0.1).2.2.2.2.2 _ _ hshort hself
  · obtain ⟨g, p, -, hlow, hhigh, -⟩ := harcs (.startingAt .origin) ⟨1.0, .origin⟩ .absolute
      ⟨⟨1.0, 1.0⟩, -45.0, false, false⟩ .origin hrotation
    exact ⟨hlow, hhigh⟩

end Icon

end VectorIcon

/-
  VectorIcon.Proofs.Number.Text
  ────────────────────────────────
  **A NUMBER IS READ BACK FROM ITS TEXT.**

  The digits which are searched for round to the number they were searched for
  (`Shortest.digits_round`), or else are its exact expansion.  Every layout of
  digits is a numeral of the same value (`DecimalNotation.positional_writes`,
  `exponential_writes`), and integers are written by their own digits.  So the
  text of a finite number in path data is a numeral which is read as an equal
  number with the same text (`Scalar.compactText_numeral`); minus zero is read
  as zero.
-/
import VectorIcon.Number.Compact
import VectorIcon.Proofs.Number.Decimal
import VectorIcon.Proofs.Number.Numeral

namespace VectorIcon

/-! ## §1. Digits of naturals. -/

namespace Decimal

theorem digitsValue_eq (cs : List Char) : digitsValue cs = Nat.ofDigitChars 10 cs 0 := rfl

theorem allDigits_toDigits (n : ℕ) : AllDigits (Nat.toDigits 10 n) := by
  intro c hc
  have h := Nat.isDigit_of_mem_toDigits (by norm_num) (by norm_num) hc
  simpa [Char.isDigit, isDigit, Char.le_def] using h

theorem allDigits_append {a b : List Char} (ha : AllDigits a) (hb : AllDigits b) :
    AllDigits (a ++ b) := by
  intro c hc
  exact (List.mem_append.1 hc).elim (ha c) (hb c)

theorem allDigits_zeros (k : ℕ) : AllDigits (List.replicate k '0') := by
  intro c hc
  rw [(List.mem_replicate.1 hc).2]
  rfl

theorem digitsValue_toDigits (n : ℕ) : digitsValue (Nat.toDigits 10 n) = n :=
  Nat.ofDigitChars_ten_toDigits

/-- Zeros before digits do not count. -/
theorem digitsValue_zeros_append (k : ℕ) (cs : List Char) :
    digitsValue (List.replicate k '0' ++ cs) = digitsValue cs := by
  simp [digitsValue_eq, Nat.ofDigitChars_append, Nat.ofDigitChars_replicate_zero]

/-- Zeros after digits multiply by powers of ten. -/
theorem digitsValue_append_zeros (cs : List Char) (k : ℕ) :
    digitsValue (cs ++ List.replicate k '0') = 10 ^ k * digitsValue cs := by
  simp [digitsValue_eq, Nat.ofDigitChars_append, Nat.ofDigitChars_replicate_zero]

/-- A text is a numeral of the given magnitude, whatever sign stands before it. -/
def Writes (t : List Char) (x : ℚ) : Prop :=
  ∀ s negative, Sign s negative →
    ∃ d : Decimal, Numeral (s ++ t) d ∧ d.negative = negative ∧ d.magnitude = x

theorem Writes.intro {m e w f : List Char} {k : ℤ} {x : ℚ} (hm : Mantissa m w f)
    (he : Exponent e k) (hx : (digitsValue (w ++ f) : ℚ) * 10 ^ (k - f.length) = x) :
    Writes (m ++ e) x :=
  fun _ _ hs => ⟨_, .intro hs hm he, rfl, hx⟩

/-- Digits alone write their value. -/
theorem writes_natural (n : ℕ) : Writes (Nat.toDigits 10 n) n := by
  rw [← List.append_nil (Nat.toDigits 10 n)]
  refine .intro (.whole (allDigits_toDigits n) Nat.toDigits_ne_nil) .none ?_
  simp [digitsValue_toDigits]

end Decimal

/-! ## §2. The shortest digits. -/

namespace Shortest

/-- Coefficient and exponent round to a magnitude. -/
def RoundsTo (d : Dyadic) (c : ℕ) (s : ℤ) : Prop :=
  BinaryFormat.single.round (c * 10 ^ s.toNat) (10 ^ (-s).toNat) = some d

theorem neighbour?_round {p : Preference} {d : Dyadic} {s : ℤ} {c : ℕ}
    (h : neighbour? p d s = some c) : RoundsTo d c s := by
  have hcandidate : ∀ c, isCandidate p d c s = true → RoundsTo d c s := by
    intro c hc
    unfold isCandidate readsBack at hc
    exact beq_iff_eq.1 (Bool.and_eq_true_iff.1 hc).1
  unfold neighbour? at h
  simp only at h
  split at h
  · next hbelow _ =>
    cases h
    exact hcandidate _ hbelow
  · next _ habove =>
    cases h
    exact hcandidate _ habove
  · cases h
  · -- both neighbours may be written
    next hbelow habove =>
    split at h
    · cases h
      exact hcandidate _ hbelow
    · split at h
      · cases h
        exact hcandidate _ habove
      · split at h
        · cases h
          exact hcandidate _ hbelow
        · cases h
          exact hcandidate _ habove

theorem units_value (c : ℕ) (s : ℤ) :
    ((c * 10 ^ s.toNat : ℕ) / (10 ^ (-s).toNat : ℕ) : ℚ) = c * 10 ^ s := by
  rw [Rat.ofNat_zpow]
  push_cast
  ring

/-- The exact expansion has the value of the number. -/
theorem expansion_value (d : Dyadic) :
    ((expansion d).1 : ℚ) * 10 ^ (expansion d).2 = d.mantissa * 2 ^ d.exponent := by
  have hten : ∀ e : ℤ, (5 : ℚ) ^ e * 2 ^ e = 10 ^ e := fun e => by
    rw [← mul_zpow]
    norm_num
  unfold expansion
  show ((d.mantissa * 2 ^ d.exponent.toNat * 5 ^ (-d.exponent).toNat : ℕ) : ℚ) *
    10 ^ (min d.exponent 0) = _
  push_cast
  rw [← zpow_natCast, ← zpow_natCast, Int.toNat_eq_max, Int.toNat_eq_max]
  rcases le_total 0 d.exponent with h | h
  · rw [max_eq_left h, max_eq_right (by omega), min_eq_right h]
    simp
  · -- a negative power of two is a power of ten with fives
    rw [max_eq_right h, max_eq_left (by omega), min_eq_left h, ← hten, zpow_neg]
    have hfive : (5 : ℚ) ^ d.exponent ≠ 0 := by positivity
    field_simp

theorem search_round (p : Preference) {d : Dyadic} (hfits : Fits d.mantissa d.exponent)
    (he : d.exponent ≤ 104) (leading : ℤ) (fuel n : ℕ) :
    RoundsTo d (search p d leading fuel n).1 (search p d leading fuel n).2 := by
  induction fuel generalizing n with
  | zero =>
    refine BinaryFormat.round_exact (by positivity) hfits he ?_
    rw [units_value]
    exact expansion_value d
  | succ fuel ih =>
    rw [search]
    split
    · next c hc => exact neighbour?_round hc
    · exact ih (n + 1)

/-- Zeros are taken into the exponent without a change of the value. -/
theorem stripZeros_value (fuel c : ℕ) (s : ℤ) :
    ((stripZeros fuel c s).1 : ℚ) * 10 ^ (stripZeros fuel c s).2 = c * 10 ^ s := by
  induction fuel generalizing c s with
  | zero => rfl
  | succ fuel ih =>
    rw [stripZeros]
    by_cases hc : c % 10 = 0
    · rw [if_pos hc, ih, zpow_add_one₀ (by norm_num)]
      have : (c : ℚ) = (c / 10 : ℕ) * 10 := by
        exact_mod_cast (Nat.div_mul_cancel (Nat.dvd_of_mod_eq_zero hc)).symm
      rw [this]
      ring_nf
    · rw [if_neg hc]

/-- **The shortest digits round to their number.** -/
theorem digits_round (p : Preference) {d : Dyadic} (hfits : Fits d.mantissa d.exponent)
    (he : d.exponent ≤ 104) :
    ∃ n k : ℕ, 0 < k ∧ ((digits p d).1 : ℚ) * 10 ^ (digits p d).2 = n / k ∧
      BinaryFormat.single.round n k = some d := by
  have hsearch := search_round p hfits he (leadingPower d.num d.den) greatestDigitCount 1
  refine ⟨_, _, by positivity, ?_, hsearch⟩
  rw [units_value]
  exact stripZeros_value _ _ _

end Shortest

/-! ## §3. Layouts. -/

namespace DecimalNotation

open Decimal

section Layout

variable (c : ℕ) (s : ℤ) {p : ℤ} (hp : p = s + (Nat.toDigits 10 c).length - 1)

include hp

/-- The positional layout is a numeral. -/
theorem positional_writes : Writes (positional (Nat.toDigits 10 c) p) (c * 10 ^ s) := by
  have hdigits := allDigits_toDigits c
  have hvalue := digitsValue_toDigits c
  have hpos : 0 < (Nat.toDigits 10 c).length := Nat.length_toDigits_pos
  have hne : Nat.toDigits 10 c ≠ [] := Nat.toDigits_ne_nil
  generalize Nat.toDigits 10 c = digits at *
  unfold positional
  by_cases hneg : p < 0
  · -- all digits are after the point
    rw [if_pos hneg, ← List.append_nil ('0' :: _)]
    refine .intro (.pointed (allDigits_zeros 1)
      (allDigits_append (allDigits_zeros (-p - 1).toNat) hdigits) (.inl (by simp))) .none ?_
    rw [← List.append_assoc, ← List.replicate_add, digitsValue_zeros_append, hvalue,
      List.length_append, List.length_replicate]
    congr 2
    push_cast
    omega
  · rw [if_neg hneg]
    simp only
    by_cases hle : digits.length ≤ p.toNat + 1
    · -- zeros fill the places up to the point
      rw [if_pos hle, ← List.append_nil (_ ++ ['.', '0'])]
      refine .intro (.pointed (f := ['0']) (allDigits_append hdigits (allDigits_zeros _))
        (allDigits_zeros 1) (.inr (by simp))) .none ?_
      rw [show ['0'] = List.replicate 1 '0' from rfl, digitsValue_append_zeros,
        digitsValue_append_zeros, hvalue]
      have hs : s = ((p.toNat + 1 - digits.length : ℕ) : ℤ) := by omega
      rw [hs, zpow_natCast]
      push_cast
      simp
      ring
    · rw [if_neg hle, ← List.append_nil (_ ++ '.' :: _)]
      have hsplit := List.take_append_drop (p.toNat + 1) digits
      refine .intro (.pointed (fun x hx => hdigits x (List.mem_of_mem_take hx))
        (fun x hx => hdigits x (List.mem_of_mem_drop hx)) (.inr (by simp; omega))) .none ?_
      rw [hsplit, hvalue, List.length_drop]
      congr 2
      omega

/-- The exponential layout is a numeral. -/
theorem exponential_writes (n : DecimalNotation) :
    Writes (n.exponential (Nat.toDigits 10 c) p) (c * 10 ^ s) := by
  have hdigits := allDigits_toDigits c
  have hvalue := digitsValue_toDigits c
  have hpos : 0 < (Nat.toDigits 10 c).length := Nat.length_toDigits_pos
  generalize Nat.toDigits 10 c = digits at *
  -- the exponent is written with its sign
  have hexponent : Exponent ('e' :: ((if p < 0 then ['-'] else if n.plusInExponent then ['+'] else []) ++
      Nat.toDigits 10 p.natAbs)) p := by
    have h := fun (sign : List Char) (negative : Bool) (hs : Sign sign negative) =>
      @Exponent.some 'e' _ _ _ (.inl rfl) hs (allDigits_toDigits p.natAbs) Nat.toDigits_ne_nil
    simp only [digitsValue_toDigits] at h
    by_cases hneg : p < 0
    · rw [if_pos hneg]
      have := h _ _ .minus
      rwa [if_pos rfl, show -(p.natAbs : ℤ) = p by omega] at this
    · rw [if_neg hneg]
      have hp' : (p.natAbs : ℤ) = p := by omega
      by_cases hplus : n.plusInExponent = true
      · rw [if_pos hplus]
        have := h _ _ .plus
        rwa [if_neg (by simp), hp'] at this
      · rw [if_neg hplus]
        have := h _ _ .none
        rwa [if_neg (by simp), hp'] at this
  unfold exponential
  simp only [List.isEmpty_iff]
  by_cases hone : digits.drop 1 = []
  · have hlen : digits.length = 1 := by
      have := congrArg List.length hone
      simp only [List.length_drop, List.length_nil] at this
      omega
    have hs : s = p := by omega
    rw [if_pos hone, hs]
    by_cases hpoint : n.pointBeforeExponent = true
    · rw [if_pos hpoint]
      refine .intro (.pointed (f := ['0']) hdigits (allDigits_zeros 1) (.inr (by simp))) hexponent ?_
      rw [show ['0'] = List.replicate 1 '0' from rfl, digitsValue_append_zeros, hvalue,
        zpow_sub₀ (by norm_num)]
      push_cast
      simp
      ring
    · rw [if_neg hpoint, List.append_nil]
      refine .intro (.whole hdigits (List.ne_nil_of_length_pos hpos)) hexponent ?_
      simp [hvalue]
  · rw [if_neg hone]
    have hsplit := List.take_append_drop 1 digits
    refine .intro (.pointed (fun x hx => hdigits x (List.mem_of_mem_take hx))
      (fun x hx => hdigits x (List.mem_of_mem_drop hx)) (.inr hone)) hexponent ?_
    rw [hsplit, hvalue, List.length_drop]
    congr 2
    omega

end Layout

/-- **The text of a magnitude** is a numeral which rounds to it. -/
theorem magnitudeText_writes (n : DecimalNotation) {d : Dyadic} (hfits : Fits d.mantissa d.exponent)
    (he : d.exponent ≤ 104) :
    ∃ num den : ℕ, 0 < den ∧ Writes (n.magnitudeText d) (num / den) ∧
      BinaryFormat.single.round num den = some d := by
  unfold magnitudeText
  by_cases hzero : d.mantissa = 0
  · rw [if_pos hzero]
    refine ⟨0, 1, by norm_num, ?_, BinaryFormat.round_exact (by norm_num) hfits he (by simp [hzero])⟩
    refine .intro (m := ['0', '.', '0']) (e := []) (.pointed (w := ['0']) (allDigits_zeros 1)
      (allDigits_zeros 1) (.inl (by simp))) .none ?_
    rw [show digitsValue (['0'] ++ ['0']) = 0 from rfl]
    simp
  · rw [if_neg hzero]
    obtain ⟨num, den, hden, hvalue, hround⟩ := Shortest.digits_round n.preference hfits he
    refine ⟨num, den, hden, ?_, hround⟩
    rw [← hvalue]
    obtain ⟨c, s⟩ := Shortest.digits n.preference d
    simp only
    split
    · exact positional_writes c s rfl
    · exact exponential_writes c s rfl n

/-- The sign which is written before a number. -/
theorem sign_ofBool (negative : Bool) :
    Sign (if negative then ['-'] else []) negative := by
  cases negative with
  | false => exact .none
  | true => exact .minus

/-- **The text of a finite number** is a numeral which is read as that number. -/
theorem text_numeral (n : DecimalNotation) {x : Scalar} (hx : x.isFinite = true) :
    ∃ d : Decimal, d.Numeral (n.text x) ∧ d.toScalar = x := by
  obtain ⟨m, hm, -⟩ := Scalar.exists_magnitude hx
  obtain ⟨hfits, he⟩ := Scalar.magnitude_fits hm
  obtain ⟨num, den, hden, hwrites, hround⟩ := n.magnitudeText_writes hfits he
  obtain ⟨d, hd, hsign, hvalue⟩ := hwrites _ _ (sign_ofBool x.isNegative)
  refine ⟨d, ?_, toScalar_of_round hm hsign hden hvalue hround⟩
  unfold text
  rw [hm]
  exact hd

end DecimalNotation

/-! ## §4. Numbers in path data. -/

namespace Scalar

open Decimal

theorem isFinite_integerBound : integerBound.isFinite = true ∧ integerBound.value = 1000000000 :=
  literal .positive 15625000 6 ⟨by norm_num, rfl⟩ (by norm_num [Float.Model.UnpackedFloat.Sign.apply])

/-- Whether a number is written as an integer depends on its value. -/
theorem isCompactInteger_iff {x : Scalar} (hx : x.isFinite = true) :
    x.isCompactInteger = true ↔ (∃ n : ℤ, x.value = n) ∧ |x.value| < 1000000000 := by
  have hbound := isFinite_integerBound
  unfold isCompactInteger
  rw [Bool.and_eq_true, decide_eq_true_eq, isIntegral_iff, lt_iff (by rwa [isFinite_abs]) hbound.1,
    value_abs, hbound.2]
  simp [hx]

/-- The integer which is written has the value of the number. -/
theorem integerText_numeral {x : Scalar} {n : ℤ} (hn : x.value = n)
    (hbound : |x.value| < 1000000000) :
    ∃ d : Decimal, d.Numeral (integerText n) ∧ d.toScalar.isFinite = true ∧
      d.toScalar.value = x.value := by
  obtain ⟨d, hd, hsign, hvalue⟩ := writes_natural n.natAbs _ _
    (DecimalNotation.sign_ofBool (decide (n < 0)))
  refine ⟨d, by simpa [integerText] using hd, ?_⟩
  have happrox := ofRatio_approximates d.negative d.num (decimal_den_pos d)
  rw [← toScalar_eq, magnitude_eq, hvalue, hsign] at happrox
  have hsame : (if decide (n < 0) = true then (-1 : ℚ) else 1) * n.natAbs = x.value := by
    rw [hn, Nat.cast_natAbs]
    by_cases hneg : n < 0
    · rw [if_pos (decide_eq_true hneg), abs_of_neg hneg]
      push_cast
      ring
    · rw [if_neg (by simpa using hneg), abs_of_nonneg (not_lt.1 hneg), one_mul]
  rw [hsame] at happrox
  exact happrox.exact_of_short x.value_short (lt_trans hbound (by norm_num))

/-- **A finite number is read back from its text**, as an equal number which has
    the same text. -/
theorem compactText_numeral {x : Scalar} (hx : x.isFinite = true) :
    ∃ d : Decimal, d.Numeral x.compactText ∧ d.toScalar.isFinite = true ∧
      (d.toScalar == x) = true ∧ d.toScalar.compactText = x.compactText := by
  by_cases hint : x.isCompactInteger = true
  · obtain ⟨⟨n, hn⟩, hbound⟩ := (isCompactInteger_iff hx).1 hint
    obtain ⟨d, hd, hfinite, hvalue⟩ := integerText_numeral hn hbound
    have hint' : d.toScalar.isCompactInteger = true :=
      (isCompactInteger_iff hfinite).2 ⟨⟨n, by rw [hvalue, hn]⟩, by rwa [hvalue]⟩
    refine ⟨d, ?_, hfinite, (beq_iff hfinite hx).2 hvalue, ?_⟩
    · unfold compactText
      rw [if_pos hint, truncate_eq hx hn]
      exact hd
    · unfold compactText
      rw [if_pos hint, if_pos hint', truncate_eq hx hn, truncate_eq hfinite (hvalue.trans hn)]
  · obtain ⟨d, hd, heq⟩ := compactNotation.text_numeral hx
    refine ⟨d, ?_, heq ▸ hx, (beq_iff (heq ▸ hx) hx).2 (by rw [heq]), by rw [heq]⟩
    unfold compactText
    rw [if_neg hint]
    exact hd

end Scalar

end VectorIcon

/-
  VectorIcon.Proofs.Json.Layout
  ────────────────────────────────
  **THE PARTS OF A WRITTEN NUMBER.**

  A finite number is written with the digits of its shortest decimal `c · 10^s`,
  positionally or with an exponent.  Either way the text is a number of JSON,
  whose digits and exponent mean the same decimal; zeros which fill the places up
  to the point, and the fraction `.0`, only lengthen the significand.
-/
import VectorIcon.Proofs.Json.Text
import VectorIcon.Proofs.Number.Text

namespace VectorIcon

namespace Json

open Decimal (AllDigits allDigits_toDigits allDigits_append allDigits_zeros digitsValue)

/-! ## §1. The leading digit. -/

/-- Digits of a positive natural do not begin with a zero. -/
theorem toDigits_leading {n : ℕ} (h : n ≠ 0) (ds : List Char) : Nat.toDigits 10 n ≠ '0' :: ds := by
  induction n using Nat.strong_induction_on generalizing ds with
  | _ n ih =>
    by_cases hlt : n < 10
    · rw [Nat.toDigits_of_lt_base hlt]
      have hdigit : ∀ n < 10, n ≠ 0 → n.digitChar ≠ '0' := by decide
      exact fun heq => hdigit n hlt h (List.cons.inj heq).1
    · -- the leading digit is that of the quotient
      rw [Nat.toDigits_of_base_le (by norm_num) (by omega)]
      obtain ⟨c, cs, hcs⟩ := List.exists_cons_of_ne_nil (Nat.toDigits_ne_nil (n := n / 10) (b := 10))
      intro heq
      rw [hcs, List.cons_append] at heq
      obtain rfl : c = '0' := (List.cons.inj heq).1
      exact ih (n / 10) (by omega) (by omega) cs hcs

/-! ## §2. What the parts mean. -/

namespace NumberText

/-- The digits of a number as one natural. -/
def significand (t : NumberText) : ℕ := digitsValue (t.whole ++ t.fraction.getD [])

/-- The exponent which is written. -/
def exponentValue (t : NumberText) : ℤ :=
  match t.exponent with
  | none => 0
  | some (negative, ds) => if negative then -(digitsValue ds : ℤ) else digitsValue ds

/-- The power of ten of the last digit. -/
def power (t : NumberText) : ℤ := t.exponentValue - (t.fraction.getD []).length

/-- A number with a fraction or an exponent which means `c · 10^s`; its
    significand is `c` with zeros behind it, none or as far as the fraction `.0`. -/
structure Means (t : NumberText) (c : ℕ) (s : ℤ) : Prop where
  wellFormed : t.WellFormed
  double : t.fraction.isSome || t.exponent.isSome
  value : ∃ k : ℕ, t.significand = c * 10 ^ k ∧ t.power = s - k ∧
    (k = 0 ∨ t.power = -1 ∧ t.significand < 10 ^ 14)

end NumberText

/-! ## §3. Layouts. -/

/-- Digits which do not begin with a zero do not when they are cut or lengthened. -/
theorem leading_kept {digits w : List Char} (hlead : ∀ ds, digits ≠ '0' :: ds)
    (hne : digits ≠ []) (hw : w.head? = digits.head?) : ∀ ds, w = '0' :: ds → ds = [] := by
  obtain ⟨d, rest, rfl⟩ := List.exists_cons_of_ne_nil hne
  rintro ds rfl
  cases hw
  exact absurd rfl (hlead rest)

/-- A number with a fraction and without an exponent. -/
theorem pointed_means {c : ℕ} {s : ℤ} (negative : Bool) {w f : List Char}
    (hw : AllDigits w ∧ w ≠ []) (hleading : ∀ ds, w = '0' :: ds → ds = [])
    (hf : AllDigits f ∧ f ≠ []) {k : ℕ} (hvalue : digitsValue (w ++ f) = c * 10 ^ k)
    (hlength : (f.length : ℤ) = k - s)
    (hk : k = 0 ∨ f.length = 1 ∧ c * 10 ^ k < 10 ^ 14) :
    ∃ t : NumberText, t.negative = negative ∧ t.Means c s ∧
      t.chars = (if negative then ['-'] else []) ++ (w ++ '.' :: f) := by
  have hpower : (NumberText.mk negative w (some f) none).power = -f.length := zero_sub _
  refine ⟨⟨negative, w, some f, none⟩, rfl,
    ⟨⟨hw, hleading, ?_, nofun⟩, rfl, k, hvalue, by rw [hpower]; omega, hk.imp_right fun h => ⟨?_, ?_⟩⟩, ?_⟩
  · rintro ds hds
    cases hds
    exact hf
  · rw [hpower, h.1]
    rfl
  · exact lt_of_eq_of_lt hvalue h.2
  · unfold NumberText.chars NumberText.exponentChars NumberText.fractionChars
    rw [List.append_nil]

/-- The parts of the layout with an exponent: one digit, the other digits as a
    fraction if there are any, and the exponent with its sign. -/
theorem exponential_chars (digits : List Char) (p : ℤ) :
    numberNotation.exponential digits p = digits.take 1 ++
      (NumberText.fractionChars (if digits.drop 1 = [] then none else some (digits.drop 1)) ++
        NumberText.exponentChars (some (decide (p < 0), Nat.toDigits 10 p.natAbs))) := by
  have hsign : (if p < 0 then ['-'] else if numberNotation.plusInExponent then ['+'] else []) ++
      Nat.toDigits 10 p.natAbs = (if decide (p < 0) then '-' else '+') :: Nat.toDigits 10 p.natAbs := by
    by_cases hneg : p < 0
    · rw [if_pos hneg, if_pos (decide_eq_true hneg)]
      rfl
    · rw [if_neg hneg, decide_eq_false hneg]
      rfl
  unfold DecimalNotation.exponential NumberText.exponentChars
  simp only
  rw [hsign, ← List.append_assoc (digits.take 1)]
  congr 1
  by_cases hnil : digits.drop 1 = []
  · have htake := List.take_append_drop 1 digits
    rw [hnil, List.append_nil] at htake
    rw [if_pos hnil, hnil, htake]
    rfl
  · rw [if_neg hnil]
    exact if_neg (by rwa [List.isEmpty_iff])

section

variable {c : ℕ} (hc : c ≠ 0) {s p : ℤ} (hp : p = s + (Nat.toDigits 10 c).length - 1)

include hc hp

/-- The positional layout. -/
theorem positional_means (negative : Bool) (hle : p ≤ 12) :
    ∃ t : NumberText, t.negative = negative ∧ t.Means c s ∧
      t.chars = (if negative then ['-'] else []) ++
        DecimalNotation.positional (Nat.toDigits 10 c) p := by
  have hdigits := allDigits_toDigits c
  have hvalue := Decimal.digitsValue_toDigits c
  have hpos : 0 < (Nat.toDigits 10 c).length := Nat.length_toDigits_pos
  have hne : Nat.toDigits 10 c ≠ [] := Nat.toDigits_ne_nil
  have hleading := toDigits_leading hc
  unfold DecimalNotation.positional
  by_cases hneg : p < 0
  · -- all digits are after the point
    rw [if_pos hneg]
    refine pointed_means negative (w := ['0']) ⟨allDigits_zeros 1, List.cons_ne_nil _ _⟩ ?_
      ⟨allDigits_append (allDigits_zeros _) hdigits, List.append_ne_nil_of_right_ne_nil _ hne⟩
      (k := 0) ?_ ?_ (.inl rfl)
    · intro ds hds
      cases hds
      rfl
    · rw [← List.append_assoc, show ['0'] = List.replicate 1 '0' from rfl, ← List.replicate_add,
        Decimal.digitsValue_zeros_append, hvalue, pow_zero, mul_one]
    · rw [List.length_append, List.length_replicate]
      push_cast
      omega
  · rw [if_neg hneg]
    simp only
    by_cases hshort : (Nat.toDigits 10 c).length ≤ p.toNat + 1
    · -- zeros fill the places up to the point
      rw [if_pos hshort]
      refine pointed_means negative (f := ['0'])
        ⟨allDigits_append hdigits (allDigits_zeros _), List.append_ne_nil_of_left_ne_nil hne _⟩
        (leading_kept hleading hne ?_) ⟨allDigits_zeros 1, List.cons_ne_nil _ _⟩
        (k := p.toNat + 1 - (Nat.toDigits 10 c).length + 1) ?_ ?_ (.inr ?_)
      · exact List.head?_append_of_ne_nil _ hne
      · rw [show ['0'] = List.replicate 1 '0' from rfl, List.append_assoc, ← List.replicate_add,
          Decimal.digitsValue_append_zeros, hvalue, mul_comm]
      · rw [List.length_singleton]
        push_cast
        omega
      · have hlt : c < 10 ^ (Nat.toDigits 10 c).length :=
          (Nat.length_toDigits_le_iff (by norm_num) hpos).1 le_rfl
        refine ⟨rfl, ?_⟩
        calc c * 10 ^ (p.toNat + 1 - (Nat.toDigits 10 c).length + 1)
            < 10 ^ (Nat.toDigits 10 c).length * 10 ^ (p.toNat + 1 - (Nat.toDigits 10 c).length + 1) := by
              gcongr
          _ ≤ 10 ^ 14 := by
            rw [← pow_add]
            exact Nat.pow_le_pow_right (by norm_num) (by omega)
    · -- the point stands between digits
      rw [if_neg hshort]
      refine pointed_means negative
        ⟨fun x hx => hdigits x (List.mem_of_mem_take hx), List.ne_nil_of_length_pos ?_⟩
        (leading_kept hleading hne ?_)
        ⟨fun x hx => hdigits x (List.mem_of_mem_drop hx), List.ne_nil_of_length_pos ?_⟩
        (k := 0) ?_ ?_ (.inl rfl)
      · rw [List.length_take]
        omega
      · rw [List.head?_take, if_neg (Nat.succ_ne_zero _)]
      · rw [List.length_drop]
        omega
      · rw [List.take_append_drop, hvalue, pow_zero, mul_one]
      · rw [List.length_drop]
        omega

/-- The layout with an exponent. -/
theorem exponential_means (negative : Bool) :
    ∃ t : NumberText, t.negative = negative ∧ t.Means c s ∧
      t.chars = (if negative then ['-'] else []) ++
        numberNotation.exponential (Nat.toDigits 10 c) p := by
  have hdigits := allDigits_toDigits c
  have hvalue := Decimal.digitsValue_toDigits c
  have hpos : 0 < (Nat.toDigits 10 c).length := Nat.length_toDigits_pos
  have hne : Nat.toDigits 10 c ≠ [] := Nat.toDigits_ne_nil
  have hleading := toDigits_leading hc
  have hexponent : (if decide (p < 0) then -(digitsValue (Nat.toDigits 10 p.natAbs) : ℤ)
      else digitsValue (Nat.toDigits 10 p.natAbs)) = p := by
    rw [Decimal.digitsValue_toDigits]
    by_cases hneg : p < 0
    · rw [if_pos (decide_eq_true hneg)]
      omega
    · rw [if_neg (by simpa using hneg)]
      omega
  -- one digit stands before the point, the others are the fraction
  obtain ⟨f, hf⟩ : ∃ f, f = if (Nat.toDigits 10 c).drop 1 = [] then none
      else some ((Nat.toDigits 10 c).drop 1) := ⟨_, rfl⟩
  have hfraction : f.getD [] = (Nat.toDigits 10 c).drop 1 := by
    rw [hf]
    split
    · next hnil => exact hnil.symm
    · rfl
  refine ⟨⟨negative, (Nat.toDigits 10 c).take 1, f, some (decide (p < 0), Nat.toDigits 10 p.natAbs)⟩, rfl,
    ⟨⟨⟨fun x hx => hdigits x (List.mem_of_mem_take hx), List.ne_nil_of_length_pos ?_⟩,
      leading_kept hleading hne ?_, ?_, ?_⟩, Bool.or_true _, 0, ?_, ?_, .inl rfl⟩, ?_⟩
  · rw [List.length_take]
    omega
  · rw [List.head?_take, if_neg Nat.one_ne_zero]
  · intro ds hds
    rw [hf] at hds
    split at hds
    · cases hds
    · next hmore =>
      cases hds
      exact ⟨fun x hx => hdigits x (List.mem_of_mem_drop hx), hmore⟩
  · rintro e he
    cases he
    exact ⟨allDigits_toDigits _, Nat.toDigits_ne_nil⟩
  · show digitsValue ((Nat.toDigits 10 c).take 1 ++ f.getD []) = _
    rw [hfraction, List.take_append_drop, hvalue, pow_zero, mul_one]
  · show (if decide (p < 0) then -(digitsValue (Nat.toDigits 10 p.natAbs) : ℤ)
      else digitsValue (Nat.toDigits 10 p.natAbs)) - ((f.getD []).length : ℤ) = _
    rw [hexponent, hfraction, List.length_drop]
    omega
  · rw [exponential_chars (Nat.toDigits 10 c) p, ← hf]
    rfl

end

/-! ## §4. The text of a finite number. -/

/-- Coefficient and exponent of the shortest decimal. -/
abbrev shortest (d : Dyadic) : ℕ × ℤ := Shortest.digits numberNotation.preference d

/-- The digits of a positive number are those of a positive natural. -/
theorem shortest_ne_zero {d : Dyadic} (hfits : Fits d.mantissa d.exponent) (he : d.exponent ≤ 104)
    (hd : d.mantissa ≠ 0) : (shortest d).1 ≠ 0 := by
  obtain ⟨n, k, hk, hvalue, hround⟩ := Shortest.digits_round numberNotation.preference hfits he
  intro hzero
  rw [hzero, Nat.cast_zero, zero_mul, eq_comm, div_eq_zero_iff] at hvalue
  have hn : n = 0 := by
    rcases hvalue with hn | hk'
    · exact_mod_cast hn
    · exact absurd (by exact_mod_cast hk') hk.ne'
  rw [hn] at hround
  cases hround
  exact hd rfl

/-- The parts of a zero. -/
theorem zero_wellFormed (negative : Bool) :
    (NumberText.mk negative ['0'] (some ['0']) none).WellFormed := by
  refine ⟨⟨allDigits_zeros 1, List.cons_ne_nil _ _⟩, ?_, ?_, nofun⟩
  · rintro ds hds
    cases hds
    rfl
  · rintro ds hds
    cases hds
    exact ⟨allDigits_zeros 1, List.cons_ne_nil _ _⟩

variable {x : Scalar} {d : Dyadic} (hd : x.magnitude? = some d)

include hd

/-- **The text of a zero**: its sign is kept. -/
theorem numberText_zero (hzero : d.mantissa = 0) :
    numberText x = (NumberText.mk x.isNegative ['0'] (some ['0']) none).chars := by
  unfold numberText DecimalNotation.text DecimalNotation.magnitudeText
  rw [if_pos (Scalar.isFinite_of_magnitude hd), hd]
  simp only
  rw [if_pos hzero]
  rfl

/-- **The text of a finite number** which is not zero means the shortest decimal,
    with the sign of the number. -/
theorem numberText_means (hne : d.mantissa ≠ 0) :
    ∃ t : NumberText, t.negative = x.isNegative ∧
      t.Means (shortest d).1 (shortest d).2 ∧ numberText x = t.chars := by
  obtain ⟨hfits, he⟩ := Scalar.magnitude_fits hd
  have hc := shortest_ne_zero hfits he hne
  unfold numberText DecimalNotation.text DecimalNotation.magnitudeText
  rw [if_pos (Scalar.isFinite_of_magnitude hd), hd]
  simp only
  rw [if_neg hne]
  generalize hp : (shortest d).2 + (Nat.toDigits 10 (shortest d).1).length - 1 = p
  by_cases hrange : numberNotation.leastPositional ≤ p ∧ p ≤ numberNotation.greatestPositional
  · rw [if_pos hrange]
    obtain ⟨t, hsign, hmeans, hchars⟩ := positional_means hc hp.symm x.isNegative hrange.2
    exact ⟨t, hsign, hmeans, hchars.symm⟩
  · rw [if_neg hrange]
    obtain ⟨t, hsign, hmeans, hchars⟩ := exponential_means hc hp.symm x.isNegative
    exact ⟨t, hsign, hmeans, hchars.symm⟩

end Json

end VectorIcon

/-
  VectorIcon.Proofs.Number.Numeral
  ────────────────────────────────
  **NUMERALS, AND THAT THE LONGEST ONES ARE READ.**

  The written form of a number is

      [+-]? (digits (. digits?)? | . digits) ([eE] [+-]? digits)?

  and `Numeral t d` says that the text `t` has this form and means the decimal
  `d`.  What is read from a text is its longest numeral (`scan_sound`).  The
  other way round, a numeral is read from a text it begins, unless a longer one
  begins it too or the numeral is followed by an exponent letter
  (`scan_numeral`): such a letter without digits is a fault.
-/
import VectorIcon.Number.Decimal
import VectorIcon.Proofs.Lists

namespace VectorIcon

namespace Decimal

/-! ## §1. The form of a numeral. -/

/-- Nothing but digits. -/
def AllDigits (t : List Char) : Prop := ∀ c ∈ t, isDigit c = true

/-- An optional sign; true for minus. -/
inductive Sign : List Char → Bool → Prop where
  | none : Sign [] false
  | plus : Sign ['+'] false
  | minus : Sign ['-'] true

/-- Digits, or digits around a point with at least one on either side; with the
    digits before and after the point. -/
inductive Mantissa : List Char → List Char → List Char → Prop where
  | whole {w : List Char} : AllDigits w → w ≠ [] → Mantissa w w []
  | pointed {w f : List Char} : AllDigits w → AllDigits f → w ≠ [] ∨ f ≠ [] →
      Mantissa (w ++ '.' :: f) w f

/-- The letters which begin an exponent. -/
def IsExponentLetter (c : Char) : Prop := c = 'e' ∨ c = 'E'

/-- An optional exponent. -/
inductive Exponent : List Char → Int → Prop where
  | none : Exponent [] 0
  | some {c : Char} {s ds : List Char} {negative : Bool} :
      IsExponentLetter c → Sign s negative → AllDigits ds → ds ≠ [] →
      Exponent (c :: (s ++ ds)) (if negative then -digitsValue ds else digitsValue ds)

/-- A numeral and its value. -/
inductive Numeral : List Char → Decimal → Prop where
  | intro {s m e w f : List Char} {negative : Bool} {k : Int} :
      Sign s negative → Mantissa m w f → Exponent e k →
      Numeral (s ++ (m ++ e)) ⟨negative, digitsValue (w ++ f), k - f.length⟩

/-- No longer text than `t` at the front of `t ++ r` is a numeral. -/
def Longest (t r : List Char) : Prop :=
  ∀ t' r' d, t ++ r = t' ++ r' → Numeral t' d → t'.length ≤ t.length

theorem allDigits_nil : AllDigits [] := fun _ h => absurd h List.not_mem_nil

theorem AllDigits.snoc {ds : List Char} {c : Char} (h : AllDigits ds) (hc : isDigit c = true) :
    AllDigits (ds ++ [c]) := by
  intro x hx
  rcases List.mem_append.1 hx with hx | hx
  · exact h x hx
  · rw [List.mem_singleton.1 hx]
    exact hc

theorem exponentLetter_not_digit {c : Char} (h : IsExponentLetter c) :
    isDigit c = false ∧ c ≠ '.' := by
  rcases h with rfl | rfl <;> decide

theorem AllDigits.head {ds : List Char} (h : AllDigits ds) (hne : ds ≠ []) (v : List Char) :
    ∀ c ∈ (ds ++ v).head?, isDigit c = true ∨ c = '.' := by
  obtain ⟨d, ds, rfl⟩ := List.exists_cons_of_ne_nil hne
  intro c hc
  obtain rfl : d = c := by simpa using hc
  exact .inl (h d List.mem_cons_self)

/-- A mantissa begins with a digit or a point. -/
theorem Mantissa.head {m w f : List Char} (h : Mantissa m w f) (v : List Char) :
    ∀ c ∈ (m ++ v).head?, isDigit c = true ∨ c = '.' := by
  cases h with
  | whole hw hne => exact hw.head hne v
  | @pointed w f hw hf hne =>
    by_cases hempty : w = []
    · intro c hc
      exact .inr (by simpa [hempty, eq_comm] using hc)
    · rw [List.append_assoc]
      exact hw.head hempty _

/-! ## §2. Splitting off digits. -/

theorem splitDigits_eq (cs : List Char) : cs = (splitDigits cs).1 ++ (splitDigits cs).2 :=
  List.takeWhile_append_dropWhile.symm

theorem splitDigits_allDigits (cs : List Char) : AllDigits (splitDigits cs).1 :=
  fun _ hc => List.mem_takeWhile_imp hc

/-- Digits before something else are split off. -/
theorem splitDigits_append {ds r : List Char} (hds : AllDigits ds)
    (hr : ∀ c ∈ r.head?, ¬isDigit c = true) : splitDigits (ds ++ r) = (ds, r) := by
  have hnone : r.takeWhile isDigit = [] ∧ r.dropWhile isDigit = r := by
    cases r with
    | nil => exact ⟨rfl, rfl⟩
    | cons c r => simp [hr c rfl]
  unfold splitDigits
  rw [List.takeWhile_append_of_pos hds, List.dropWhile_append_of_pos hds, hnone.1, hnone.2,
    List.append_nil]

/-- Digits at the front are among those which are split off. -/
theorem splitDigits_length_le {ds : List Char} (hds : AllDigits ds) (r : List Char) :
    (splitDigits (ds ++ r)).2.length ≤ r.length := by
  unfold splitDigits
  rw [List.dropWhile_append_of_pos hds]
  exact List.length_dropWhile_le isDigit r

/-! ## §3. The stages of a numeral. -/

/-- A sign before something else is split off. -/
theorem splitSign_append {s u : List Char} {negative : Bool} (hs : Sign s negative)
    (hu : ∀ c ∈ u.head?, isDigit c = true ∨ c = '.') : splitSign (s ++ u) = (negative, u) := by
  cases hs with
  | plus | minus => rfl
  | none =>
    show splitSign u = _
    unfold splitSign
    split
    · exact absurd (hu '-' rfl) (by decide)
    · exact absurd (hu '+' rfl) (by decide)
    · rfl

theorem splitSign_sound (cs : List Char) :
    ∃ s, Sign s (splitSign cs).1 ∧ cs = s ++ (splitSign cs).2 := by
  unfold splitSign
  split
  · exact ⟨['-'], .minus, rfl⟩
  · exact ⟨['+'], .plus, rfl⟩
  · exact ⟨[], .none, rfl⟩

/-- What follows the digits and the point of a text. -/
def afterMantissa (u : List Char) : List Char := (splitFraction (splitDigits u).2).2

theorem splitDigits_pointed {w : List Char} (hw : AllDigits w) (u : List Char) :
    splitDigits (w ++ '.' :: u) = (w, '.' :: u) :=
  splitDigits_append hw fun c hc => by
    cases hc
    decide

/-- A mantissa at the front is passed. -/
theorem Mantissa.passed {m w f : List Char} (h : Mantissa m w f) (v : List Char) :
    (afterMantissa (m ++ v)).length ≤ v.length := by
  unfold afterMantissa
  cases h with
  | whole hw =>
    have h1 := splitDigits_length_le hw v
    have h2 := splitFraction_length_le (splitDigits (m ++ v)).2
    omega
  | pointed hw hf =>
    rw [List.append_assoc, List.cons_append, splitDigits_pointed hw]
    exact splitDigits_length_le hf v

/-- **A mantissa is split off**, unless a longer one begins the text. -/
theorem Mantissa.split {m w f : List Char} (h : Mantissa m w f) (v : List Char) :
    ((splitDigits (m ++ v)).1 = w ∧ splitFraction (splitDigits (m ++ v)).2 = (f, v)) ∨
      ∃ c r m' w' f', v = c :: r ∧ (isDigit c = true ∨ c = '.') ∧ Mantissa m' w' f' ∧
        m ++ v = m' ++ r := by
  rcases List.head_cases (isDigit · = true) v with ⟨c, r, rfl, hc⟩ | hv
  · -- one more digit belongs to whatever stands last
    right
    cases h with
    | whole hw hne =>
      exact ⟨c, r, _, _, _, rfl, .inl hc, .whole (hw.snoc hc) (by simp), by simp⟩
    | pointed hw hf hne =>
      exact ⟨c, r, _, _, _, rfl, .inl hc, .pointed hw (hf.snoc hc) (by simp), by simp⟩
  · cases h with
    | whole hw hne =>
      rw [splitDigits_append hw hv]
      cases v with
      | nil => exact .inl ⟨rfl, rfl⟩
      | cons c r =>
        by_cases hc : c = '.'
        · -- the point belongs to the numeral
          rw [hc]
          exact .inr ⟨'.', r, _, m, [], rfl, .inr rfl, .pointed hw allDigits_nil (.inl hne),
            by simp⟩
        · left
          unfold splitFraction
          split
          · next heq => exact absurd (List.cons.inj heq).1 hc
          · exact ⟨rfl, rfl⟩
    | pointed hw hf =>
      rw [List.append_assoc, List.cons_append, splitDigits_pointed hw]
      exact .inl ⟨rfl, splitDigits_append hf hv⟩

theorem splitMantissa_sound (u : List Char)
    (h : (splitDigits u).1 ≠ [] ∨ (splitFraction (splitDigits u).2).1 ≠ []) :
    ∃ m, Mantissa m (splitDigits u).1 (splitFraction (splitDigits u).2).1 ∧
      u = m ++ afterMantissa u := by
  have hu := splitDigits_eq u
  have hw := splitDigits_allDigits u
  generalize (splitDigits u).1 = w at *
  unfold afterMantissa
  generalize (splitDigits u).2 = v at *
  unfold splitFraction at *
  split at h
  · next r =>
    refine ⟨w ++ '.' :: (splitDigits r).1, .pointed hw (splitDigits_allDigits r) h, ?_⟩
    rw [hu, List.append_assoc, List.cons_append, ← splitDigits_eq]
  · exact ⟨w, .whole hw (h.resolve_right fun hne => hne rfl), hu⟩

theorem splitExponent_none {r : List Char} (h : ∀ c ∈ r.head?, ¬IsExponentLetter c) :
    splitExponent r = .ok (0, r) := by
  cases r with
  | nil => rfl
  | cons c r => exact if_neg (h c rfl)

theorem splitExponent_some {c : Char} (hc : IsExponentLetter c) (r : List Char) :
    splitExponent (c :: r) =
      if (splitDigits (splitSign r).2).1 = [] then .error .missingExponent
      else .ok (if (splitSign r).1 then -digitsValue (splitDigits (splitSign r).2).1
        else digitsValue (splitDigits (splitSign r).2).1, (splitDigits (splitSign r).2).2) := by
  have hletter : c = 'e' ∨ c = 'E' := hc
  simp [splitExponent, hletter]

/-- An exponent at the front is passed. -/
theorem Exponent.passed {e r v : List Char} {k k' : Int} (h : Exponent e k)
    (hsplit : splitExponent (e ++ v) = .ok (k', r)) : r.length ≤ v.length := by
  cases h with
  | none => exact splitExponent_length_le hsplit
  | @some c s ds _ hc hs hds hne =>
    have hsign := splitSign_append hs (hds.head hne v)
    rw [List.cons_append, List.append_assoc, splitExponent_some hc, hsign] at hsplit
    split at hsplit
    · cases hsplit
    · cases hsplit
      exact splitDigits_length_le hds v

/-- **An exponent is split off**, unless the text goes on with a digit. -/
theorem Exponent.split {e : List Char} {k : Int} (h : Exponent e k) (v : List Char) :
    splitExponent (e ++ v) = .ok (k, v) ∨
      ∃ c r, v = c :: r ∧ (IsExponentLetter c ∨
        isDigit c = true ∧ ∃ e' k', Exponent e' k' ∧ e ++ v = e' ++ r) := by
  cases h with
  | none =>
    rcases List.head_cases IsExponentLetter v with ⟨c, r, hv, hc⟩ | hv
    · exact .inr ⟨c, r, hv, .inl hc⟩
    · exact .inl (splitExponent_none hv)
  | @some c s ds negative hc hs hds hne =>
    rcases List.head_cases (isDigit · = true) v with ⟨d, r, rfl, hd⟩ | hv
    · exact .inr ⟨d, r, rfl, .inr ⟨hd, _, _, .some hc hs (hds.snoc hd) (by simp), by simp⟩⟩
    · left
      have hsign := splitSign_append hs (hds.head hne v)
      rw [List.cons_append, List.append_assoc, splitExponent_some hc, hsign]
      simp only
      rw [splitDigits_append hds hv, if_neg hne]

theorem splitExponent_sound {v r : List Char} {k : Int} (h : splitExponent v = .ok (k, r)) :
    ∃ e, Exponent e k ∧ v = e ++ r := by
  cases v with
  | nil =>
    cases h
    exact ⟨[], .none, rfl⟩
  | cons c v =>
    by_cases hc : IsExponentLetter c
    · rw [splitExponent_some hc] at h
      split at h
      · cases h
      · next hne =>
        cases h
        obtain ⟨s, hs, hv⟩ := splitSign_sound v
        refine ⟨_, .some hc hs (splitDigits_allDigits _) hne, ?_⟩
        rw [List.cons_append, List.append_assoc, ← splitDigits_eq, ← hv]
    · rw [splitExponent_none fun x hx => by cases hx; exact hc] at h
      cases h
      exact ⟨[], .none, rfl⟩

/-! ## §4. Numerals are read. -/

/-- A text is read stage by stage. -/
theorem scan_ok {cs r : List Char} {d : Decimal} :
    scan cs = .ok (d, r) ↔
      ((splitDigits (splitSign cs).2).1 ≠ [] ∨
          (splitFraction (splitDigits (splitSign cs).2).2).1 ≠ []) ∧
        ∃ k, splitExponent (afterMantissa (splitSign cs).2) = .ok (k, r) ∧
          d = ⟨(splitSign cs).1, digitsValue ((splitDigits (splitSign cs).2).1 ++
            (splitFraction (splitDigits (splitSign cs).2).2).1),
            k - (splitFraction (splitDigits (splitSign cs).2).2).1.length⟩ := by
  unfold scan afterMantissa
  simp only [Bool.and_eq_true, List.isEmpty_iff]
  split
  · next h => simp [h]
  · next h =>
    have hdigits := not_and_or.1 h
    cases splitExponent (splitFraction (splitDigits (splitSign cs).2).2).2 with
    | error f => simp [bind, Except.bind]
    | ok x =>
      obtain ⟨k, r'⟩ := x
      simp [bind, Except.bind, pure, Except.pure, hdigits]
      grind

/-- A numeral at the front of a text is passed. -/
theorem Numeral.passed {t r r' : List Char} {d d' : Decimal} (h : Numeral t d)
    (hscan : scan (t ++ r) = .ok (d', r')) : r'.length ≤ r.length := by
  obtain ⟨hs, hm, he⟩ := h
  next s m e w f negative k =>
  have hsign := splitSign_append hs (hm.head (e ++ r))
  obtain ⟨-, k', hexp, -⟩ := scan_ok.1 hscan
  rw [List.append_assoc, List.append_assoc, hsign] at hexp
  have hpassed := hm.passed (e ++ r)
  rcases hm.split (e ++ r) with ⟨-, hsplit⟩ | ⟨c, v, m', w', f', hv, hc, hm', heq⟩
  · -- the mantissa is the numeral's own
    rw [afterMantissa, hsplit] at hexp
    exact he.passed hexp
  · -- a longer mantissa: the numeral has no exponent
    have hpassed := hm'.passed v
    rw [← heq] at hpassed
    have hlen := splitExponent_length_le hexp
    cases he with
    | none =>
      rw [List.nil_append] at hv
      rw [hv, List.length_cons]
      simp only at hlen
      omega
    | some hletter =>
      obtain ⟨rfl, -⟩ := List.cons.inj hv
      have := exponentLetter_not_digit hletter
      grind

/-- **What is read is a numeral**, and the longest one at the front. -/
theorem scan_sound {cs r : List Char} {d : Decimal} (h : scan cs = .ok (d, r)) :
    ∃ t, cs = t ++ r ∧ Numeral t d ∧ Longest t r := by
  obtain ⟨hdigits, k, hexp, rfl⟩ := scan_ok.1 h
  obtain ⟨s, hs, hcs⟩ := splitSign_sound cs
  obtain ⟨m, hm, hu⟩ := splitMantissa_sound _ hdigits
  obtain ⟨e, he, hv⟩ := splitExponent_sound hexp
  have heq : cs = s ++ (m ++ e) ++ r := by
    rw [List.append_assoc, List.append_assoc, ← hv, ← hu, ← hcs]
  refine ⟨s ++ (m ++ e), heq, .intro hs hm he, fun t' r' d' ht' hd' => ?_⟩
  rw [heq, ht'] at h
  have hlen := congrArg List.length ht'
  have hpassed := hd'.passed h
  simp only [List.length_append] at hlen ⊢
  omega

/-- **A numeral is read** from a text it begins, unless a longer numeral begins
    the text or an exponent letter follows. -/
theorem scan_numeral {t : List Char} {d : Decimal} (h : Numeral t d) (r : List Char) :
    scan (t ++ r) = .ok (d, r) ∨
      ∃ c v, r = c :: v ∧ (IsExponentLetter c ∨
        (isDigit c = true ∨ c = '.') ∧ ∃ t' d', Numeral t' d' ∧ t ++ r = t' ++ v) := by
  obtain ⟨hs, hm, he⟩ := h
  next s m e w f negative k =>
  have hsign := splitSign_append hs (hm.head (e ++ r))
  rcases hm.split (e ++ r) with ⟨hwhole, hfraction⟩ | ⟨c, v, m', w', f', hv, hc, hm', heq⟩
  · rcases he.split r with hexp | ⟨c, v, hr, hletter | ⟨hc, e', k', he', heq⟩⟩
    · left
      rw [List.append_assoc, List.append_assoc, scan_ok, hsign]
      refine ⟨?_, k, ?_, ?_⟩
      · rw [hwhole, hfraction]
        cases hm with
        | whole _ hne => exact .inl hne
        | pointed _ _ hne => exact hne
      · rw [afterMantissa, hfraction, hexp]
      · rw [hwhole, hfraction]
    · exact .inr ⟨c, v, hr, .inl hletter⟩
    · refine .inr ⟨c, v, hr, .inr ⟨.inl hc, _, _, .intro hs hm he', ?_⟩⟩
      rw [List.append_assoc, List.append_assoc, heq, List.append_assoc, List.append_assoc]
  · cases he with
    | none =>
      refine .inr ⟨c, v, hv, .inr ⟨hc, _, _, .intro hs hm' .none, ?_⟩⟩
      rw [List.append_nil, List.append_nil, List.append_assoc, List.append_assoc]
      exact congrArg (s ++ ·) heq
    | some hletter =>
      obtain ⟨rfl, -⟩ := List.cons.inj hv
      have := exponentLetter_not_digit hletter
      grind

/-- The characters which may go on with a numeral. -/
def Continues (c : Char) : Prop := isDigit c = true ∨ c = '.' ∨ IsExponentLetter c

/-- A numeral is read if what follows cannot go on with it. -/
theorem scan_stopped {t r : List Char} {d : Decimal} (h : Numeral t d)
    (hr : ∀ c ∈ r.head?, ¬Continues c) : scan (t ++ r) = .ok (d, r) := by
  rcases scan_numeral h r with hscan | ⟨c, v, rfl, hc⟩
  · exact hscan
  · have := hr c rfl
    unfold Continues at this
    grind

/-- A numeral is the longest one if what follows cannot go on with it. -/
theorem longest_stopped {t r : List Char} {d : Decimal} (h : Numeral t d)
    (hr : ∀ c ∈ r.head?, ¬Continues c) : Longest t r := by
  obtain ⟨t', heq, -, hlong⟩ := scan_sound (scan_stopped h hr)
  rwa [List.append_cancel_right heq]

/-- The longest numeral of a text is read if no exponent letter follows. -/
theorem scan_longest {t r : List Char} {d : Decimal} (h : Numeral t d) (hlong : Longest t r)
    (hr : ∀ c ∈ r.head?, ¬IsExponentLetter c) : scan (t ++ r) = .ok (d, r) := by
  rcases scan_numeral h r with hscan | ⟨c, v, rfl, hletter | ⟨-, t', d', ht', heq⟩⟩
  · exact hscan
  · exact absurd hletter (hr c rfl)
  · have hlen := congrArg List.length heq
    have hle := hlong t' v d' heq ht'
    simp only [List.length_append, List.length_cons] at hlen
    omega

end Decimal

end VectorIcon

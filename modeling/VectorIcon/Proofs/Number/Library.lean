/-
  VectorIcon.Proofs.Number.Library
  ────────────────────────────────
  **WHAT A NUMBER LIBRARY READS.**

  A lawful library reads the numerals, each as the number nearest to it, and the
  words for what is not finite; it reads nothing else.  A finite number is therefore
  read from a text exactly if the text is a numeral of it (`Lawful.finite_iff`),
  and there is such a library (`standard_lawful`).
-/
import VectorIcon.Number.Library
import VectorIcon.Proofs.Number.Numeral
import VectorIcon.Proofs.Text.Utf8

namespace VectorIcon

/-! ## §1. Whole numerals. -/

namespace Decimal

/-- Whether the mantissa at the front of a text has digits. -/
def hasDigits (cs : List Char) : Bool :=
  !((splitDigits (splitSign cs).2).1.isEmpty &&
    (splitFraction (splitDigits (splitSign cs).2).2).1.isEmpty)

theorem hasDigits_of_scan {cs r : List Char} {d : Decimal} (h : scan cs = .ok (d, r)) :
    hasDigits cs = true := by
  obtain ⟨hdigits, -⟩ := scan_ok.1 h
  simpa [hasDigits, List.isEmpty_iff, imp_iff_not_or] using hdigits

/-- A text is not scanned if its mantissa or its exponent has no digits. -/
theorem scan_error {cs : List Char} {f : NumeralFault} (h : scan cs = .error f) :
    hasDigits cs = false ∧ f = .missingDigits ∨
      hasDigits cs = true ∧ splitExponent (afterMantissa (splitSign cs).2) = .error f := by
  unfold scan at h
  simp only at h
  split at h
  · next hnone =>
    cases h
    exact .inl ⟨by rw [hasDigits, hnone, Bool.not_true], rfl⟩
  · next hsome =>
    refine .inr ⟨by rw [hasDigits, Bool.eq_false_iff.2 hsome, Bool.not_false], ?_⟩
    rw [afterMantissa]
    cases hexp : splitExponent (splitFraction (splitDigits (splitSign cs).2).2).2 with
    | error f' =>
      rw [hexp] at h
      cases h
      rfl
    | ok x =>
      rw [hexp] at h
      cases h

/-- A text is scanned to its end exactly if it is a numeral. -/
theorem scan_whole {t : List Char} {d : Decimal} : scan t = .ok (d, []) ↔ Numeral t d := by
  constructor
  · intro h
    obtain ⟨u, hu, hd, -⟩ := scan_sound h
    rwa [hu, List.append_nil]
  · intro h
    have hscan := scan_stopped (r := []) h fun _ hc => by cases hc
    rwa [List.append_nil] at hscan

theorem parse?_iff {t : List Char} {d : Decimal} : parse? t = some d ↔ Numeral t d := by
  rw [← scan_whole, parse?]
  split
  · next d' hscan => simp [hscan]
  · next hscan => exact iff_of_false nofun (hscan d)

end Decimal

namespace NumberLibrary

open Decimal (Sign Numeral)

/-! ## §2. Words. -/

/-- The words for what is not finite, in any case. -/
def IsWord (w : List Char) : Prop :=
  w.map Char.toLower ∈ ["nan".toList, "inf".toList, "infinity".toList]

/-- A word with an optional sign. -/
inductive Word : List Char → Prop where
  | intro {s w : List Char} {negative : Bool} : Sign s negative → IsWord w → Word (s ++ w)

/-- Words begin with a letter. -/
theorem IsWord.head {w : List Char} (h : IsWord w) : ∃ c r, w = c :: r ∧ 65 ≤ c.toNat := by
  have hlower : ∀ c : Char, c.toNat < 65 → c.toLower = c := by
    intro c hc
    unfold Char.toLower
    rw [dif_neg]
    rintro ⟨hA, -⟩
    exact absurd (UInt32.le_iff_toNat_le.1 hA) (Nat.not_le.2 hc)
  cases w with
  | nil => exact absurd h (by unfold IsWord; decide)
  | cons c r =>
    refine ⟨c, r, rfl, Nat.le_of_not_lt fun hc => ?_⟩
    have hhead : (c.toLower :: r.map Char.toLower).head? ∈ [some 'n', some 'i'] := by
      have := List.mem_map_of_mem (f := List.head?) h
      simpa using this
    rw [hlower c hc] at hhead
    rcases List.mem_cons.1 hhead with heq | heq
    · cases heq
      exact absurd hc (by decide)
    · cases List.mem_singleton.1 heq
      exact absurd hc (by decide)

theorem splitSign_word {s w : List Char} {negative : Bool} (hs : Sign s negative) (hw : IsWord w) :
    Decimal.splitSign (s ++ w) = (negative, w) := by
  obtain ⟨c, r, rfl, hc⟩ := hw.head
  cases hs with
  | plus | minus => rfl
  | none =>
    rw [List.nil_append, Decimal.splitSign]
    · rintro _ heq
      cases heq
      exact absurd hc (by decide)
    · rintro _ heq
      cases heq
      exact absurd hc (by decide)

/-- No word is a numeral. -/
theorem parse?_word {t : List Char} (h : Word t) : Decimal.parse? t = none := by
  obtain ⟨hs, hw⟩ := h
  next s w negative =>
  refine Option.eq_none_iff_forall_ne_some.2 fun d hd => ?_
  obtain ⟨hdigits, -⟩ := Decimal.scan_ok.1 (Decimal.scan_whole.2 (Decimal.parse?_iff.1 hd))
  obtain ⟨c, r, rfl, hc⟩ := hw.head
  rw [splitSign_word hs hw] at hdigits
  have hdigit : ¬Decimal.isDigit c = true := by
    intro hdigit
    simp only [Decimal.isDigit, Bool.and_eq_true, decide_eq_true_eq] at hdigit
    exact absurd (UInt32.le_iff_toNat_le.1 hdigit.2) (Nat.not_le.2 (Nat.lt_of_lt_of_le (by decide) hc))
  have hwhole : Decimal.splitDigits (c :: r) = ([], c :: r) :=
    Decimal.splitDigits_append Decimal.allDigits_nil fun _ hd => by
      cases hd
      exact hdigit
  have hfraction : Decimal.splitFraction (c :: r) = ([], c :: r) := by
    rw [Decimal.splitFraction]
    rintro _ heq
    cases heq
    exact absurd hc (by decide)
  simp only [hwhole, hfraction] at hdigits
  exact hdigits.elim (fun h => h rfl) fun h => h rfl

/-! ## §3. Lawful libraries. -/

/-- Numerals are read as the nearest number and words as what is not finite; nothing
    else is read. -/
structure Lawful (library : NumberLibrary) : Prop where
  numeral : ∀ {t : List Char} {d : Decimal}, d.Numeral t → library (Text.bytes t) = some d.toScalar
  word : ∀ {t : List Char}, Word t → ∃ x, library (Text.bytes t) = some x ∧ x.isFinite = false
  reads : ∀ {t : List Char} {x : Scalar}, library (Text.bytes t) = some x → (∃ d : Decimal, d.Numeral t) ∨ Word t

/-- **A finite number is read from its numerals only.** -/
theorem Lawful.finite_iff {library : NumberLibrary} (h : library.Lawful) {t : List Char} {x : Scalar} :
    library (Text.bytes t) = some x ∧ x.isFinite = true ↔
      ∃ d : Decimal, d.Numeral t ∧ d.toScalar.isFinite = true ∧ x = d.toScalar := by
  constructor
  · rintro ⟨hx, hfinite⟩
    rcases h.reads hx with ⟨d, hd⟩ | hw
    · cases hx.symm.trans (h.numeral hd)
      exact ⟨d, hd, hfinite, rfl⟩
    · obtain ⟨y, hy, hinfinite⟩ := h.word hw
      cases hx.symm.trans hy
      exact absurd hfinite (by rw [hinfinite]; exact Bool.false_ne_true)
  · rintro ⟨d, hd, hfinite, rfl⟩
    exact ⟨h.numeral hd, hfinite⟩

/-- The words of the standard library. -/
theorem word?_word {t : List Char} (h : Word t) : ∃ x, word? t = some x ∧ x.isFinite = false := by
  obtain ⟨hs, hw⟩ := h
  next s w negative =>
  rw [word?, splitSign_word hs hw]
  have hfinite : ∀ negative,
      (Scalar.withSign negative (Float32.ofBits 0x7fc00000)).isFinite = false ∧
        (Scalar.withSign negative Scalar.infinity).isFinite = false := by decide +kernel
  simp only [IsWord, List.mem_cons, List.not_mem_nil, or_false] at hw
  simp only
  split
  · exact ⟨_, rfl, (hfinite negative).1⟩
  · next hnan =>
    rw [if_pos (hw.resolve_left hnan)]
    exact ⟨_, rfl, (hfinite negative).2⟩

theorem word_of_word? {t : List Char} {x : Scalar} (h : word? t = some x) : Word t := by
  obtain ⟨s, hs, ht⟩ := Decimal.splitSign_sound t
  rw [word?] at h
  rw [ht]
  refine .intro hs ?_
  simp only at h
  simp only [IsWord, List.mem_cons, List.not_mem_nil, or_false]
  split at h
  · next hnan => exact .inl hnan
  · split at h
    · next hinf => exact .inr hinf
    · cases h

theorem standard_lawful : standard.Lawful where
  numeral {t d} hd := by
    rw [standard, Text.Utf8.lossy_bytes, Decimal.parse?_iff.2 hd]
  word {t} hw := by
    rw [standard, Text.Utf8.lossy_bytes, parse?_word hw]
    exact word?_word hw
  reads {t x} h := by
    rw [standard, Text.Utf8.lossy_bytes] at h
    split at h
    · next d hd => exact .inl ⟨d, Decimal.parse?_iff.1 hd⟩
    · exact .inr (word_of_word? h)

end NumberLibrary

end VectorIcon

/-
  VectorIcon.Proofs.Drawing.Number
  ────────────────────────────────
  **NUMBERS OF ATTRIBUTES AND NUMBERS OF PATH DATA ARE THE SAME.**

  The reader of an attribute hands a text over to a number library as it is, and
  the reader of path data first finds a numeral in it by itself.  Both refuse what
  is not finite, so that the words of the library make no difference; what is
  left are the finite numerals which are all of the text:

      Attribute.scalar_iff      — the text of an attribute without blanks and unit
      Path.number_whole         — the text of path data without separators

  and for a text without any of these, the two agree (`Attribute.scalar_agrees`).
-/
import Mathlib.Data.List.TakeWhile
import VectorIcon.Drawing.Attribute
import VectorIcon.Proofs.Path.Tape

namespace VectorIcon

namespace Attribute

/-! ## §1. Numbers of attributes. -/

theorem finite?_iff {text : List Char} {x : Scalar} : finite? text = some x ↔
    ∃ d : Decimal, d.Numeral text ∧ d.toScalar.isFinite = true ∧ x = d.toScalar := by
  rw [finite?, Option.filter_eq_some_iff]
  constructor
  · rintro ⟨hx, hfinite⟩
    obtain ⟨d, hd, rfl⟩ := Option.map_eq_some_iff.1 hx
    exact ⟨d, Decimal.parse?_iff.1 hd, hfinite, rfl⟩
  · rintro ⟨d, hd, hfinite, rfl⟩
    exact ⟨Option.map_eq_some_iff.2 ⟨d, Decimal.parse?_iff.2 hd, rfl⟩, hfinite⟩

theorem scalar_iff {name : String} {value : List Char} {x : Scalar} :
    scalar name value = .ok x ↔ finite? (dropUnit (Text.trim value)) = some x := by
  rw [scalar]
  split
  · next y hy =>
    rw [hy, Except.ok.injEq, Option.some_inj]
  · next hy =>
    rw [hy]
    exact iff_of_false nofun nofun

/-- **The reader of an attribute reads what a lawful library makes it read.** -/
theorem scalarBy_eq {library : NumberLibrary} (hl : library.Lawful) (name : String)
    (value : List Char) : scalarBy library name value = scalar name value := by
  have hfinite : ∀ x, library (Text.bytes (dropUnit (Text.trim value))) = some x ∧
      x.isFinite = true ↔ finite? (dropUnit (Text.trim value)) = some x := fun x =>
    hl.finite_iff.trans finite?_iff.symm
  rw [scalar, scalarBy]
  cases hread : finite? (dropUnit (Text.trim value)) with
  | some x =>
    obtain ⟨hx, hxfinite⟩ := (hfinite x).2 hread
    rw [hx]
    exact if_pos hxfinite
  | none =>
    -- what the library reads is not finite then
    cases hx : library (Text.bytes (dropUnit (Text.trim value))) with
    | none => rfl
    | some x =>
      refine if_neg fun hxfinite => ?_
      cases hread.symm.trans ((hfinite x).1 ⟨hx, hxfinite⟩)

theorem scalarBy_finite {library : NumberLibrary} {name : String} {value : List Char} {x : Scalar}
    (h : scalarBy library name value = .ok x) : x.isFinite = true := by
  rw [scalarBy] at h
  split at h
  · split at h
    · next hfinite =>
      cases h
      exact hfinite
    · cases h
  · cases h

end Attribute

namespace Path

/-! ## §2. Numbers of path data. -/

/-- All of a text is a number exactly if it is a finite numeral after separators. -/
theorem number_whole {text : List Char} {x : Scalar} :
    number text = .ok (x, []) ↔ Attribute.finite? (skipSeparators text) = some x := by
  rw [number_ok, Attribute.finite?_iff]
  simp only [Decimal.scan_whole]

namespace Step

/-- **A tape gives a number and comes to its end** exactly if all of the text is that
    number. -/
theorem scalar_whole {library : NumberLibrary} (hl : library.Lawful) {t : String} {x : Scalar} :
    (∃ s, (scalar library).start (Tape.ofText t) = (.ok x, s) ∧ s.offset = t.utf8ByteSize) ↔
      number t.toList = .ok (x, []) := by
  have hsize := utf8ByteSize_eq t
  constructor
  · rintro ⟨s, hstart, hoffset⟩
    cases hread : number t.toList with
    | error f =>
      obtain ⟨s', hs'⟩ := (scalar_follows hl).error (Tape.at_ofText t) hread
      rw [hs'] at hstart
      cases hstart
    | ok p =>
      obtain ⟨y, r⟩ := p
      obtain ⟨taken, htaken, hs'⟩ := (scalar_follows hl).ok (Tape.at_ofText t) hread
      rw [hs'] at hstart
      cases hstart
      have hend : 0 + Text.byteLength taken = Text.byteLength taken + Text.byteLength r := by
        rw [← Text.byteLength_append, ← htaken, ← hsize]
        exact hoffset
      have hr : r = [] := Text.byteLength_eq_zero.1 (by omega)
      rw [hr]
  · intro hread
    obtain ⟨taken, htaken, hstart⟩ := (scalar_follows hl).ok (Tape.at_ofText t) hread
    rw [List.append_nil] at htaken
    refine ⟨_, hstart, ?_⟩
    rw [hsize, htaken]
    exact Nat.zero_add _

theorem scalar_finite {library : NumberLibrary} {t s : Tape} {x : Scalar}
    (h : (scalar library).start t = (.ok x, s)) : x.isFinite = true := by
  obtain ⟨_, u, -, h⟩ := bind_start_ok h
  rw [numeral, start_get] at h
  obtain ⟨_, _, -, h⟩ := bind_start_ok h
  obtain ⟨_, _, -, h⟩ := bind_start_ok h
  obtain ⟨_, _, -, h⟩ := bind_start_ok h
  rw [value, start_get] at h
  split at h
  · cases h
  · split at h
    · next hfinite =>
      cases h
      exact hfinite
    · cases h

end Step

end Path

namespace Attribute

/-! ## §3. Agreement. -/

/-- Neither white space nor a comma is in the text, and no unit ends it. -/
structure Bare (text : List Char) : Prop where
  noBlank : ∀ c ∈ text, Text.isBlank c = false
  noComma : ',' ∉ text
  noUnit : ¬['p', 'x'] <:+ text

theorem bare_iff {text : List Char} : Bare text ↔
    text.all (fun c => !Text.isBlank c && c != ',') = true ∧ ['p', 'x'].isSuffixOf text = false := by
  simp only [List.all_eq_true, Bool.and_eq_true, Bool.not_eq_true', bne_iff_ne, Bool.eq_false_iff,
    Ne, List.isSuffixOf_iff_suffix]
  constructor
  · intro h
    exact ⟨fun c hc => ⟨Bool.eq_false_iff.1 (h.noBlank c hc), fun heq => h.noComma (heq ▸ hc)⟩, h.noUnit⟩
  · rintro ⟨hchars, hunit⟩
    exact ⟨fun c hc => Bool.eq_false_iff.2 (hchars c hc).1, fun hc => (hchars _ hc).2 rfl, hunit⟩

instance (text : List Char) : Decidable (Bare text) := decidable_of_iff _ bare_iff.symm

theorem dropSuffix?_iff {suffix text front : List Char} :
    dropSuffix? suffix text = some front ↔ front ++ suffix = text :=
  List.isSuffixOf?_eq_some_iff_append_eq

/-- The separators of path data are commas and white space. -/
theorem isSeparator_blank {c : Char} (h : Path.isSeparator c = true) :
    c = ',' ∨ Text.isBlank c = true := by
  simp only [Path.isSeparator, Bool.or_eq_true, decide_eq_true_eq] at h
  rcases h with ((((rfl | rfl) | rfl) | rfl) | rfl) | rfl
  · exact .inr rfl
  · exact .inr rfl
  · exact .inr rfl
  · exact .inr rfl
  · exact .inr rfl
  · exact .inl rfl

namespace Bare

variable {text : List Char}

theorem trimEnd (h : Bare text) : Text.trimEnd text = text := by
  have hrev : ∀ c ∈ text.reverse, Text.isBlank c = false := fun c hc => h.noBlank c (List.mem_reverse.1 hc)
  rw [Text.trimEnd, List.dropWhile_eq_self hrev, List.reverse_reverse]

theorem trim (h : Bare text) : Text.trim text = text := by
  rw [Text.trim, Text.trimStart, List.dropWhile_eq_self h.noBlank, h.trimEnd]

theorem dropUnit (h : Bare text) : dropUnit text = text := by
  have hnone : dropSuffix? ['p', 'x'] text = none :=
    Option.eq_none_iff_forall_ne_some.2 fun front hfront => h.noUnit ⟨front, dropSuffix?_iff.1 hfront⟩
  rw [Attribute.dropUnit, hnone, Option.getD_none, h.trimEnd]

theorem skipSeparators (h : Bare text) : Path.skipSeparators text = text := by
  refine List.dropWhile_eq_self fun c hc => Bool.eq_false_iff.2 fun hsep => ?_
  rcases isSeparator_blank hsep with rfl | hblank
  · exact h.noComma hc
  · rw [h.noBlank c hc] at hblank
    cases hblank

end Bare

/-- **The reader of an attribute and the reader of path data read the same numbers**
    from a text which both take as it is: the former gives a number exactly if the
    latter gives it and takes all of the text.  Neither gives what is not finite. -/
theorem scalar_agrees {library : NumberLibrary} (hl : library.Lawful) (name : String) :
    (∀ t : String, Bare t.toList → ∀ v : Scalar,
      (scalarBy library name t.toList = .ok v ↔
        ∃ s, (Path.Step.scalar library).start (Path.Tape.ofText t) = (.ok v, s) ∧
          s.offset = t.utf8ByteSize) ∧
      (scalar name t.toList = .ok v ↔ Path.number t.toList = .ok (v, []))) ∧
    (∀ value v, scalarBy library name value = .ok v → v.isFinite = true) ∧
    ∀ t v s, (Path.Step.scalar library).start t = (.ok v, s) → v.isFinite = true := by
  refine ⟨fun t ht v => ?_, fun _ _ => scalarBy_finite, fun _ _ _ => Path.Step.scalar_finite⟩
  have hread : scalar name t.toList = .ok v ↔ Path.number t.toList = .ok (v, []) := by
    rw [scalar_iff, Path.number_whole, ht.trim, ht.dropUnit, ht.skipSeparators]
  refine ⟨?_, hread⟩
  rw [scalarBy_eq hl, hread, Path.Step.scalar_whole hl]

/-- A numeral without a whole part is read by both, and a word for what is not finite
    by neither. -/
theorem scalar_agrees_spellings :
    NumberLibrary.standard.Lawful ∧ Bare "-.5e+1".toList ∧ Bare "infinity".toList ∧
    scalarBy NumberLibrary.standard "r" "-.5e+1".toList = .ok (-5.0) ∧
    (∃ s, (Path.Step.scalar NumberLibrary.standard).start (Path.Tape.ofText "-.5e+1") = (.ok (-5.0), s) ∧
      s.offset = 6) ∧
    ∀ v, scalarBy NumberLibrary.standard "r" "infinity".toList ≠ .ok v ∧
      ¬∃ s, (Path.Step.scalar NumberLibrary.standard).start (Path.Tape.ofText "infinity") = (.ok v, s) ∧
        s.offset = 8 := by
  have hnumeral : Bare "-.5e+1".toList := by decide +kernel
  have hword : Bare "infinity".toList := by decide +kernel
  obtain ⟨hagrees, -⟩ := scalar_agrees NumberLibrary.standard_lawful "r"
  obtain ⟨hread, hrun⟩ := hagrees "-.5e+1" hnumeral (-5.0)
  have hnumber : Path.number "-.5e+1".toList = .ok (-5.0, []) := by
    rw [Path.number_whole]
    decide +kernel
  have hscalar : scalarBy NumberLibrary.standard "r" "-.5e+1".toList = .ok (-5.0) := by
    rw [scalarBy_eq NumberLibrary.standard_lawful, hrun, hnumber]
  refine ⟨NumberLibrary.standard_lawful, hnumeral, hword, hscalar, hread.1 hscalar, fun v => ?_⟩
  have hrefused : scalarBy NumberLibrary.standard "r" "infinity".toList ≠ .ok v := by
    have hnone : finite? (dropUnit (Text.trim "infinity".toList)) = none := by decide +kernel
    rw [scalarBy_eq NumberLibrary.standard_lawful, Ne, scalar_iff, hnone]
    exact nofun
  exact ⟨hrefused, fun h => hrefused ((hagrees "infinity" hword v).1.2 h)⟩

end Attribute

end VectorIcon

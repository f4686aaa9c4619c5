/-
  VectorIcon.Proofs.Path.Concatenation
  ────────────────────────────────
  **PATH DATA ONE AFTER THE OTHER.**

  Path data may be written behind other path data, with nothing between them: the
  commands of the whole are those of the first part and then those of the second.
  Two things could go wrong and do not.

      tokens     — the first part may end in a numeral, which is read as far as it
                   goes; but path data begins with a separator or with the letter
                   of a move, and neither stands in a numeral (`pathData_foreign`)
      memory     — operands without a letter continue the letter before them; but
                   path data begins with a letter of its own (`groups_append`)

  All rules of the grammar hold of longer texts as well, if what is added is
  foreign to numerals.

  Main result:
    * `parse_append`.
-/
import VectorIcon.Proofs.Path.Fault

namespace VectorIcon

namespace Path

open Grammar

/-! ## §1. What can not stand in a numeral. -/

/-- The characters of which numerals are made. -/
def IsNumeralChar (c : Char) : Prop := IsNumeralStart c ∨ Decimal.IsExponentLetter c

theorem digits_chars {ds : List Char} (h : Decimal.AllDigits ds) : ∀ c ∈ ds, IsNumeralChar c :=
  fun c hc => .inl (.inl (h c hc))

theorem sign_chars {s : List Char} {b : Bool} (h : Decimal.Sign s b) : ∀ c ∈ s, IsNumeralChar c := by
  intro c hc
  cases h with
  | none => cases hc
  | plus => exact .inl (.inr (.inr (.inl (List.mem_singleton.1 hc))))
  | minus => exact .inl (.inr (.inr (.inr (List.mem_singleton.1 hc))))

theorem mantissa_chars {m w f : List Char} (h : Decimal.Mantissa m w f) :
    ∀ c ∈ m, IsNumeralChar c := by
  intro c hc
  cases h with
  | whole hw => exact digits_chars hw c hc
  | pointed hw hf =>
    rcases List.mem_append.1 hc with hc | hc
    · exact digits_chars hw c hc
    · rcases List.mem_cons.1 hc with hpoint | hc
      · exact .inl (.inr (.inl hpoint))
      · exact digits_chars hf c hc

theorem exponent_chars {e : List Char} {k : Int} (h : Decimal.Exponent e k) :
    ∀ c ∈ e, IsNumeralChar c := by
  intro c hc
  cases h with
  | none => cases hc
  | some hletter hs hds =>
    rcases List.mem_cons.1 hc with rfl | hc
    · exact .inr hletter
    · exact (List.mem_append.1 hc).elim (sign_chars hs c) (digits_chars hds c)

theorem numeral_chars {t : List Char} {d : Decimal} (h : d.Numeral t) : ∀ c ∈ t, IsNumeralChar c := by
  obtain ⟨hs, hm, he⟩ := h
  intro c hc
  rcases List.mem_append.1 hc with hc | hc
  · exact sign_chars hs c hc
  · exact (List.mem_append.1 hc).elim (mantissa_chars hm c) (exponent_chars he c)

/-- No numeral goes on into the text. -/
def Foreign (t : List Char) : Prop := ∀ c ∈ t.head?, ¬IsNumeralChar c

theorem separator_foreign {c : Char} (h : isSeparator c = true) : ¬IsNumeralChar c := by
  rintro (hstart | hletter)
  · exact (numeralStart_plain hstart).1 h
  · have hseparator := isSeparator_bounds h
    have hletter := exponentLetter_bounds hletter
    omega

/-- A command letter belongs to no numeral. -/
theorem toChar_foreign (l : CommandLetter) : ¬IsNumeralChar l.toChar := by
  rintro (hstart | hletter)
  · have hnone := (numeralStart_plain hstart).2.2.2
    rw [CommandLetter.ofChar?_toChar] at hnone
    cases hnone
  · exact (toChar_bounds l).2.2 hletter

theorem foreign_gap {gap u : List Char} (h : Separators gap) (hu : Foreign u) : Foreign (gap ++ u) := by
  cases gap with
  | nil => exact hu
  | cons x gap =>
    intro c hc
    cases hc
    exact separator_foreign (h x List.mem_cons_self)

/-- **Path data is foreign to a numeral before it.** -/
theorem pathData_foreign {t : List Char} {cs : List Command} (h : PathData t cs) : Foreign t := by
  have hnil : Foreign [] := fun c hc => by cases hc
  cases h with
  | empty hgap =>
    rw [← List.append_nil t]
    exact foreign_gap hgap hnil
  | @starting gap s r f p cs hgap =>
    refine foreign_gap hgap fun c hc => ?_
    cases hc
    exact toChar_foreign _

/-- A longest numeral stays the longest one. -/
theorem longest_append {t r v : List Char} (hv : Foreign v) (h : Decimal.Longest t r) :
    Decimal.Longest t (r ++ v) := by
  intro t' r' d heq hd
  rw [← List.append_assoc] at heq
  rcases List.append_eq_append_iff.1 heq with ⟨u, rfl, hu⟩ | ⟨u, hu, rfl⟩
  · cases u with
    | nil =>
      rw [List.append_nil] at hd ⊢
      exact h (t ++ r) [] d (List.append_nil _).symm hd
    | cons c u =>
      -- a numeral which reaches the added text has its first character
      refine absurd (numeral_chars hd c ?_) (hv c (by rw [hu]; rfl))
      exact List.mem_append_right _ List.mem_cons_self
  · exact h t' u d hu hd

/-! ## §2. Rules on longer texts. -/

section

variable {v : List Char} (hv : Foreign v)

include hv

theorem number_append {s r : List Char} {x : Scalar} (h : Number s x r) :
    Number (s ++ v) x (r ++ v) := by
  obtain ⟨hgap, hd, hlong, hfinite⟩ := h
  rw [List.append_assoc, List.append_assoc]
  exact .intro hgap hd (longest_append hv hlong) hfinite

omit hv in
theorem flag_append {s r : List Char} {b : Bool} (h : Flag s b r) : Flag (s ++ v) b (r ++ v) := by
  cases h with
  | zero hgap =>
    rw [List.append_assoc]
    exact .zero hgap
  | one hgap =>
    rw [List.append_assoc]
    exact .one hgap

theorem pair_append {s r : List Char} {p : Point} (h : Pair s p r) : Pair (s ++ v) p (r ++ v) := by
  obtain ⟨hx, hy⟩ := h
  exact .intro (number_append hv hx) (number_append hv hy)

theorem shape_append {s r : List Char} {a : ArcShape} (h : Grammar.Shape s a r) :
    Grammar.Shape (s ++ v) a (r ++ v) := by
  obtain ⟨hradii, hrotation, hlarge, hsweep⟩ := h
  exact .intro (pair_append hv hradii) (number_append hv hrotation) (flag_append hlarge)
    (flag_append hsweep)

theorem operands_append {f : Frame} {kind : CommandKind} {s r : List Char} {c : Command}
    (h : Operands f kind s c r) : Operands f kind (s ++ v) c (r ++ v) := by
  cases h with
  | move hp => exact .move (pair_append hv hp)
  | line hp => exact .line (pair_append hv hp)
  | horizontal hx => exact .horizontal (number_append hv hx)
  | vertical hy => exact .vertical (number_append hv hy)
  | cubic ha hb hp => exact .cubic (pair_append hv ha) (pair_append hv hb) (pair_append hv hp)
  | smoothCubic hb hp => exact .smoothCubic (pair_append hv hb) (pair_append hv hp)
  | quad ha hp => exact .quad (pair_append hv ha) (pair_append hv hp)
  | smoothQuad hp => exact .smoothQuad (pair_append hv hp)
  | arc hshape hp => exact .arc (shape_append hv hshape) (pair_append hv hp)
  | close => exact .close

end

/-! ## §3. Path data behind path data. -/

theorem separators_append {gap gap' : List Char} (h : Separators gap) (h' : Separators gap') :
    Separators (gap ++ gap') :=
  fun c hc => (List.mem_append.1 hc).elim (h c) (h' c)

/-- Separators may stand before path data. -/
theorem pathData_gap {gap t : List Char} {cs : List Command} (hgap : Separators gap)
    (h : PathData t cs) : PathData (gap ++ t) cs := by
  cases h with
  | empty hgap' => exact .empty (separators_append hgap hgap')
  | starting hgap' hp hgroups =>
    rw [← List.append_assoc]
    exact .starting (separators_append hgap hgap') hp hgroups

/-- Path data are groups, whatever is continued. -/
theorem pathData_groups {previous : Option CommandLetter} {t : List Char} {cs : List Command}
    (h : PathData t cs) : Groups previous t cs := by
  cases h with
  | empty hgap => exact .done hgap
  | starting hgap hp hgroups => exact .lettered hgap (.move hp) hgroups

/-- **Groups go on with path data.** -/
theorem groups_append {previous : Option CommandLetter} {s v : List Char} {cs ds : List Command}
    (h : Groups previous s cs) (hv : PathData v ds) : Groups previous (s ++ v) (cs ++ ds) := by
  have hforeign := pathData_foreign hv
  -- the letter which `s` continues stays in force up to the end of `s` and no further
  induction h with
  | done hgap => exact pathData_groups (pathData_gap hgap hv)
  | lettered hgap hc _ ih =>
    rw [List.append_assoc]
    exact .lettered hgap (operands_append hforeign hc) ih
  | continued hc _ ih => exact .continued (operands_append hforeign hc) ih

theorem pathData_append {s v : List Char} {cs ds : List Command} (h : PathData s cs)
    (hv : PathData v ds) : PathData (s ++ v) (cs ++ ds) := by
  cases h with
  | empty hgap => exact pathData_gap hgap hv
  | starting hgap hp hgroups =>
    rw [List.append_assoc]
    exact .starting hgap (pair_append (pathData_foreign hv) hp) (groups_append hgroups hv)

/-- A text is accepted as what the grammar derives from it. -/
theorem parse_ok_pathData {d : String} {cs : List Command} :
    parse d = .ok cs ↔ PathData d.toList cs := by
  rw [parse_ok_iff, ← parseChars_iff]
  cases parseChars d.toList with
  | mk commands fault =>
    simp only [Parsed.mk.injEq, eq_comm, and_comm]

/-- **Path data behind path data is path data**, and is read as the commands of both
    in their order. -/
theorem parse_append {a b : String} {cs ds : List Command} (ha : parse a = .ok cs)
    (hb : parse b = .ok ds) : parse (a ++ b) = .ok (cs ++ ds) := by
  rw [parse_ok_pathData] at ha hb ⊢
  rw [String.toList_append]
  exact pathData_append ha hb

/-- A number and a repeated line at the end of the first text, a move without a
    separator at the beginning of the second. -/
theorem parse_append_tightTexts :
    ∃ cs ds : List Command, parse "m1 1 2-.5 .5e1.5" = .ok cs ∧ parse "m.5.5z" = .ok ds ∧
      parse ("m1 1 2-.5 .5e1.5" ++ "m.5.5z") = .ok (cs ++ ds) ∧ cs.length = 3 ∧ ds.length = 2 := by
  obtain ⟨cs, hcs⟩ : ∃ cs, parse "m1 1 2-.5 .5e1.5" = .ok cs := Except.exists_ok (by decide +kernel)
  obtain ⟨ds, hds⟩ : ∃ ds, parse "m.5.5z" = .ok ds := Except.exists_ok (by decide +kernel)
  have hlength : (parseChars "m1 1 2-.5 .5e1.5".toList).commands.length = 3 ∧
      (parseChars "m.5.5z".toList).commands.length = 2 := by decide +kernel
  refine ⟨cs, ds, hcs, hds, parse_append hcs hds, ?_, ?_⟩
  · rw [(parse_ok_iff.1 hcs).2, hlength.1]
  · rw [(parse_ok_iff.1 hds).2, hlength.2]

end Path

end VectorIcon

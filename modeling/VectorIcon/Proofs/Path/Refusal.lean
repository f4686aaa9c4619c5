/-
  VectorIcon.Proofs.Path.Refusal
  ────────────────────────────────
  **WHAT IS NOT FINITE IS NOT READ BACK.**

  Infinities and NaN are written as words, which begin with no numeral
  (`Scalar.compactText_nonfinite`).  So a reading tells from a written text
  whether its numbers are finite: it reads all of the text, or it stops where a
  number is missing (`Tells`).  This goes through sequences of readings, hence
  holds of the operands of a command, and of a row of commands by induction.
  Together with what is read back:

      parse_format_error — a command which is not finite makes path data which is
                           refused
-/
import VectorIcon.Proofs.Path.Fault
import VectorIcon.Proofs.Path.RoundTrip

namespace VectorIcon

/-! ## §1. The texts of numbers which are not finite. -/

/-- Infinities and NaN are written as words. -/
theorem Scalar.compactText_nonfinite {x : Scalar} (hx : x.isFinite = false) :
    x.compactText = ['N', 'a', 'N'] ∨ x.compactText = ['i', 'n', 'f'] ∨
      x.compactText = ['-', 'i', 'n', 'f'] := by
  have hnone : x.magnitude? = none := by
    unfold isFinite at hx
    unfold magnitude?
    simp only
    rw [if_pos (by simpa using hx)]
  have hinteger : x.isCompactInteger = false := by
    unfold isCompactInteger isIntegral
    rw [hnone]
    rfl
  unfold compactText DecimalNotation.text
  rw [hinteger, hnone]
  cases x.isNaN <;> cases x.isNegative <;> simp

namespace Path

open Grammar

/-- No number begins with the text of what is not finite. -/
theorem number_nonfinite {gap : List Char} (hgap : Separators gap) {x : Scalar} (hx : x.isFinite = false)
    (r : List Char) :
    number (gap ++ (x.compactText ++ r)) = .error ⟨.expectedNumber, x.compactText ++ r⟩ := by
  unfold number
  rcases Scalar.compactText_nonfinite hx with h | h | h
  all_goals
    rw [h]
    simp only [List.cons_append]
    rw [skipSeparators_gap hgap (by decide)]
    rfl

/-! ## §2. Readings which tell what is finite. -/

/-- Of a text which ends where no number goes on, the reading reads all if the
    numbers are finite, and otherwise finds that a number is missing. -/
structure Tells {α : Type} (p : Reading α) (text : List Char) (finite : Prop) : Prop where
  reads : finite → ∀ r, Stops r → ∃ a, p (text ++ r) = .ok (a, r)
  refuses : ¬finite → ∀ r, Stops r → ∃ rest, p (text ++ r) = .error ⟨.expectedNumber, rest⟩

namespace Tells

variable {α β : Type} {p : Reading α} {f : α → Reading β} {text text' : List Char}
  {finite finite' : Prop}

theorem congr (h : Tells p text finite) (htext : text = text') (hfinite : finite ↔ finite') :
    Tells p text' finite' :=
  htext ▸ ⟨fun h' => h.reads (hfinite.2 h'), fun h' => h.refuses (mt hfinite.1 h')⟩

theorem pure (a : α) : Tells (Pure.pure a) [] True where
  reads _ _ _ := ⟨a, rfl⟩
  refuses h := absurd trivial h

/-- One text after the other; no number of the first goes on in the second. -/
theorem bind (hp : Tells p text finite) (hf : ∀ a, Tells (f a) text' finite')
    (hstops : ∀ r, Stops r → Stops (text' ++ r)) :
    Tells (p >>= f) (text ++ text') (finite ∧ finite') where
  reads := by
    rintro ⟨hfinite, hfinite'⟩ r hr
    obtain ⟨a, ha⟩ := hp.reads hfinite _ (hstops r hr)
    obtain ⟨b, hb⟩ := (hf a).reads hfinite' r hr
    rw [List.append_assoc]
    exact ⟨b, Scan.bind_ok.2 ⟨a, _, ha, hb⟩⟩
  refuses := by
    intro hnot r hr
    rw [List.append_assoc]
    by_cases hfinite : finite
    · obtain ⟨a, ha⟩ := hp.reads hfinite _ (hstops r hr)
      obtain ⟨rest, hrest⟩ := (hf a).refuses (fun h => hnot ⟨hfinite, h⟩) r hr
      exact ⟨rest, Scan.bind_error.2 (.inr ⟨a, _, ha, hrest⟩)⟩
    · obtain ⟨rest, hrest⟩ := hp.refuses hfinite _ (hstops r hr)
      exact ⟨rest, Scan.bind_error.2 (.inl hrest)⟩

/-- A result which is only wrapped. -/
theorem map (g : α → β) (hp : Tells p text finite) :
    Tells (p >>= fun a => Pure.pure (g a)) text finite :=
  (hp.bind (fun a => pure (g a)) fun _ hr => hr).congr (List.append_nil text) (and_iff_left trivial)

/-- One text after the other with a space between them. -/
theorem spaced (hp : Tells p text finite) (hf : ∀ a, Tells (f a) (' ' :: text') finite') :
    Tells (p >>= f) (text ++ ' ' :: text') (finite ∧ finite') :=
  hp.bind hf fun _ _ => stops_space _

end Tells

/-- A text which stops numbers begins with no exponent letter. -/
theorem Stops.unexponented {r : List Char} (h : Stops r) : Unexponented r :=
  fun c hc he => h c hc (.inr (.inr he))

theorem number_tells {gap : List Char} (hgap : Separators gap) (x : Scalar) :
    Tells number (gap ++ x.compactText) (x.isFinite = true) where
  reads := by
    intro hx r hr
    obtain ⟨y, hy, -⟩ := number_text hgap hr hx
    rw [List.append_assoc]
    exact ⟨y, number_recognizes.complete hy hr.unexponented⟩
  refuses := by
    intro hx r hr
    rw [List.append_assoc]
    exact ⟨_, number_nonfinite hgap (Bool.eq_false_of_not_eq_true hx) r⟩

theorem point_tells {gap : List Char} (hgap : Separators gap) (p : Point) :
    Tells point (gap ++ pointText p) (p.All fun x => x.isFinite = true) :=
  ((number_tells hgap p.x).spaced fun x => (number_tells separators_space p.y).map (Point.mk x)).congr
    (List.append_assoc _ _ _) Iff.rfl

theorem flag_tells (b : Bool) : Tells flag [' ', flagChar b] True where
  reads _ r hr := ⟨b, flag_recognizes.complete (flag_text b r) hr.unexponented⟩
  refuses h := absurd trivial h

theorem arcShape_tells (s : ArcShape) :
    Tells arcShape (pointText s.radii ++ ' ' :: (s.rotation.compactText ++
        [' ', flagChar s.large, ' ', flagChar s.sweep]))
      ((s.radii.All fun x => x.isFinite = true) ∧ s.rotation.isFinite = true) :=
  ((point_tells separators_nil s.radii).spaced fun radii =>
    (number_tells separators_space s.rotation).spaced fun rotation =>
      (flag_tells s.large).spaced fun large =>
        (flag_tells s.sweep).map (ArcShape.mk radii rotation large)).congr rfl (by simp)

/-- **The operands of a command are read if they are finite**, and a number is
    missing otherwise. -/
theorem operands_tells (c : Command) : Tells (operands c.letter) (operandsText c) (Finite c) := by
  -- the first operand follows the letter, each other one a space
  cases c with
  | moveTo f p => exact (point_tells separators_nil p).map (Command.moveTo f)
  | lineTo f p => exact (point_tells separators_nil p).map (Command.lineTo f)
  | smoothQuadTo f p => exact (point_tells separators_nil p).map (Command.smoothQuadTo f)
  | horizontalTo f v => exact (number_tells separators_nil v).map (Command.horizontalTo f)
  | verticalTo f v => exact (number_tells separators_nil v).map (Command.verticalTo f)
  | smoothCubicTo f b p =>
    exact (point_tells separators_nil b).spaced fun b' =>
      (point_tells separators_space p).map (Command.smoothCubicTo f b')
  | quadTo f b p =>
    exact (point_tells separators_nil b).spaced fun b' =>
      (point_tells separators_space p).map (Command.quadTo f b')
  | cubicTo f a b p =>
    exact (point_tells separators_nil a).spaced fun a' =>
      (point_tells separators_space b).spaced fun b' =>
        (point_tells separators_space p).map (Command.cubicTo f a' b')
  | arcTo f s p =>
    refine ((arcShape_tells s).spaced fun s' =>
      (point_tells separators_space p).map (Command.arcTo f s')).congr ?_ and_assoc
    show pointText s.radii ++ ' ' :: (s.rotation.compactText ++
        [' ', flagChar s.large, ' ', flagChar s.sweep]) ++ ' ' :: pointText p =
      pointText s.radii ++ ' ' :: s.rotation.compactText ++
        [' ', flagChar s.large, ' ', flagChar s.sweep, ' '] ++ pointText p
    simp only [List.append_assoc, List.cons_append, List.nil_append]
  | close => exact .pure Command.close

/-! ## §3. Rows of commands. -/

/-- The reader of a command which is written next. -/
theorem letter_text {r : Reader} {c : Command} {t : List Char} (hmove : r.started = true ∨ c.kind = .move)
    (hrest : r.rest = commandText c ++ t) :
    r.letter (skipSeparators r.rest) = .ok (c.letter, operandsText c ++ t) := by
  have hskip : skipSeparators r.rest = c.letter.toChar :: (operandsText c ++ t) := by
    rw [hrest]
    exact skipSeparators_gap separators_nil (toChar_bounds c.letter).2.1 _
  exact Reader.letter_iff.2 ⟨hmove, .inl hskip⟩

/-- **A row of commands is refused** if one of them is not finite. -/
theorem readAll_nonfinite {r : Reader} (h : r.WellFormed) {cs : List Command}
    (hmove : r.started = true ∨ ∃ f p rest, cs = .moveTo f p :: rest)
    (hrest : r.rest = formatChars cs) (hnot : ¬∀ c ∈ cs, Finite c) :
    ∃ rest, (r.readAll h).fault = some ⟨.expectedNumber, rest⟩ := by
  induction cs generalizing r with
  | nil => exact absurd (fun c hc => absurd hc List.not_mem_nil) hnot
  | cons c cs ih =>
    have hkind : r.started = true ∨ c.kind = .move := by
      refine hmove.imp_right ?_
      rintro ⟨f, p, rest, hcs⟩
      rw [(List.cons.inj hcs).1]
      rfl
    have hletter := letter_text hkind hrest
    have hstops := stops_formatChars cs
    by_cases hc : Finite c
    · -- the command is read, and one of the others is not finite
      obtain ⟨c', hc'⟩ := (operands_tells c).reads hc _ hstops
      have hread := Reader.command_some_iff.2 ⟨_, _, _, hletter, hc', rfl⟩
      rw [Reader.readAll_some hread]
      refine ih _ (.inl rfl) rfl fun hall => hnot fun d hd => ?_
      rcases List.mem_cons.1 hd with rfl | hd
      · exact hc
      · exact hall d hd
    · obtain ⟨rest, hrefused⟩ := (operands_tells c).refuses hc _ hstops
      have hne : skipSeparators r.rest ≠ [] := by
        intro hnil
        rw [hnil] at hletter
        cases hletter
      have hfault := Reader.command_error_iff.2 ⟨hne, .inr ⟨_, _, hletter, hrefused⟩⟩
      rw [Reader.readAll_error hfault]
      exact ⟨rest, rfl⟩

/-! ## §4. Path data. -/

/-- **Path data with a number which is not finite is refused**: a number is
    missing where its text stands. -/
theorem parse_format_error {cs : List Command} (hstart : ∃ f p rest, cs = .moveTo f p :: rest)
    (hnot : ¬∀ c ∈ cs, Finite c) :
    ∃ e, parse (format cs) = .error e ∧ e.cause = .expectedNumber := by
  obtain ⟨rest, hfault⟩ := readAll_nonfinite (Reader.wellFormed_ofChars (formatChars cs)) (.inr hstart)
    rfl hnot
  refine ⟨_, parse_error_iff.2 ⟨⟨.expectedNumber, rest⟩, ?_, rfl⟩, rfl⟩
  rw [format, String.toList_ofList]
  exact hfault

/-- Commands which begin with a move are read back if they are finite. -/
theorem parse_format_ok {cs : List Command} (hstart : cs = [] ∨ ∃ f p rest, cs = .moveTo f p :: rest)
    (hcs : ∀ c ∈ cs, Finite c) : ∃ cs', parse (format cs) = .ok cs' ∧ (cs' == cs) = true := by
  obtain ⟨cs', hderived, hbeq, -⟩ := format_derived hcs hstart
  refine ⟨cs', parse_ok_iff.2 ?_, hbeq⟩
  rw [format, String.toList_ofList, parseChars_iff.2 hderived]
  exact ⟨rfl, rfl⟩

end Path

end VectorIcon

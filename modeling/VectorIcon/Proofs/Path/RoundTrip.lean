/-
  VectorIcon.Proofs.Path.RoundTrip
  ────────────────────────────────
  **PATH DATA IS READ BACK AS IT WAS WRITTEN.**

  Commands are written back to back.  A number ends where a space or a letter
  stands, so the grammar derives from the text of commands just those commands,
  each with its letter: operands are never taken for a repetition
  (`format_groups`).  What is read back has the same text again.
-/
import VectorIcon.Path.Format
import VectorIcon.Proofs.Number.Text
import VectorIcon.Proofs.Path.Grammar

namespace VectorIcon

namespace Path

open Grammar

/-! ## §1. Where numbers end. -/

/-- No number goes on with the text. -/
def Stops (r : List Char) : Prop := ∀ c ∈ r.head?, ¬Decimal.Continues c

theorem stops_space (r : List Char) : Stops (' ' :: r) := by
  intro c hc
  cases hc
  unfold Decimal.Continues Decimal.IsExponentLetter
  decide

theorem stops_letter (l : CommandLetter) (r : List Char) : Stops (l.toChar :: r) := by
  intro c hc
  obtain ⟨kind, frame⟩ := l
  cases hc
  unfold Decimal.Continues Decimal.IsExponentLetter
  cases kind <;> cases frame <;> decide

theorem stops_formatChars (cs : List Command) : Stops (formatChars cs) := by
  cases cs with
  | nil => intro c hc; cases hc
  | cons c cs => exact stops_letter c.letter _

/-! ## §2. Operands. -/

/-- What is read back is equal and has the same text. -/
structure Reread {α : Type} [BEq α] (text : α → List Char) (b a : α) : Prop where
  beq : (b == a) = true
  text_eq : text b = text a

theorem separators_nil : Separators [] := fun _ h => absurd h List.not_mem_nil

theorem separators_space : Separators [' '] := by
  intro c hc
  rw [List.mem_singleton.1 hc]
  rfl

section Operands

variable {gap r : List Char} (hgap : Separators gap) (hr : Stops r)

include hgap hr

theorem number_text {x : Scalar} (hx : x.isFinite = true) :
    ∃ y, Number (gap ++ (x.compactText ++ r)) y r ∧ Reread Scalar.compactText y x := by
  obtain ⟨d, hd, hfinite, hbeq, htext⟩ := Scalar.compactText_numeral hx
  exact ⟨d.toScalar, .intro hgap hd (Decimal.longest_stopped hd hr) hfinite, hbeq, htext⟩

theorem point_text {p : Point} (hp : p.All fun x => x.isFinite = true) :
    ∃ q, Pair (gap ++ (pointText p ++ r)) q r ∧ Reread pointText q p := by
  obtain ⟨y, hy, hyr⟩ := number_text separators_space hr hp.2
  obtain ⟨x, hx, hxr⟩ := number_text hgap (stops_space (p.y.compactText ++ r)) hp.1
  refine ⟨⟨x, y⟩, ?_, ?_, ?_⟩
  · rw [pointText, List.append_assoc]
    exact .intro hx hy
  · show (x == p.x && y == p.y) = true
    rw [hxr.beq, hyr.beq]
    rfl
  · rw [pointText, pointText, hxr.text_eq, hyr.text_eq]

/-- Points one after the other, with a space between them. -/
theorem points_text {b p : Point} (hb : b.All fun x => x.isFinite = true)
    (hp : p.All fun x => x.isFinite = true) :
    ∃ b' p', Pair (gap ++ (pointText b ++ ' ' :: (pointText p ++ r))) b' (' ' :: (pointText p ++ r)) ∧
      Pair (' ' :: (pointText p ++ r)) p' r ∧ Reread pointText b' b ∧ Reread pointText p' p := by
  obtain ⟨p', hp', hpr⟩ := point_text separators_space hr hp
  obtain ⟨b', hb', hbr⟩ := point_text hgap (stops_space (pointText p ++ r)) hb
  exact ⟨b', p', hb', hp', hbr, hpr⟩

end Operands

theorem flag_text (b : Bool) (r : List Char) : Flag (' ' :: flagChar b :: r) b r := by
  cases b with
  | false => exact .zero separators_space
  | true => exact .one separators_space

/-- **The operands of a command are read back.** -/
theorem operands_text {c : Command} (hc : Finite c) {r : List Char} (hr : Stops r) :
    ∃ c', Operands c.frame c.kind (operandsText c ++ r) c' r ∧ Reread commandText c' c := by
  cases c with
  | moveTo f p =>
    obtain ⟨q, hq, hqr⟩ := point_text separators_nil hr hc
    refine ⟨.moveTo f q, .move hq, ?_, congrArg (_ :: ·) hqr.text_eq⟩
    show (f == f && q == p) = true
    simp [hqr.beq]
  | lineTo f p =>
    obtain ⟨q, hq, hqr⟩ := point_text separators_nil hr hc
    refine ⟨.lineTo f q, .line hq, ?_, congrArg (_ :: ·) hqr.text_eq⟩
    show (f == f && q == p) = true
    simp [hqr.beq]
  | smoothQuadTo f p =>
    obtain ⟨q, hq, hqr⟩ := point_text separators_nil hr hc
    refine ⟨.smoothQuadTo f q, .smoothQuad hq, ?_, congrArg (_ :: ·) hqr.text_eq⟩
    show (f == f && q == p) = true
    simp [hqr.beq]
  | horizontalTo f v =>
    obtain ⟨y, hy, hyr⟩ := number_text separators_nil hr hc
    refine ⟨.horizontalTo f y, .horizontal hy, ?_, congrArg (_ :: ·) hyr.text_eq⟩
    show (f == f && y == v) = true
    simp [hyr.beq]
  | verticalTo f v =>
    obtain ⟨y, hy, hyr⟩ := number_text separators_nil hr hc
    refine ⟨.verticalTo f y, .vertical hy, ?_, congrArg (_ :: ·) hyr.text_eq⟩
    show (f == f && y == v) = true
    simp [hyr.beq]
  | smoothCubicTo f b p =>
    obtain ⟨b', p', hb, hp, hbr, hpr⟩ := points_text separators_nil hr hc.1 hc.2
    refine ⟨.smoothCubicTo f b' p', ?_, ?_, ?_⟩
    · show Operands f _ ((pointText b ++ ' ' :: pointText p) ++ r) _ r
      rw [List.append_assoc]
      exact .smoothCubic hb hp
    · show (f == f && (b' == b && p' == p)) = true
      simp [hbr.beq, hpr.beq]
    · show _ :: (pointText b' ++ ' ' :: pointText p') = _ :: (pointText b ++ ' ' :: pointText p)
      rw [hbr.text_eq, hpr.text_eq]
      rfl
  | quadTo f b p =>
    obtain ⟨b', p', hb, hp, hbr, hpr⟩ := points_text separators_nil hr hc.1 hc.2
    refine ⟨.quadTo f b' p', ?_, ?_, ?_⟩
    · show Operands f _ ((pointText b ++ ' ' :: pointText p) ++ r) _ r
      rw [List.append_assoc]
      exact .quad hb hp
    · show (f == f && (b' == b && p' == p)) = true
      simp [hbr.beq, hpr.beq]
    · show _ :: (pointText b' ++ ' ' :: pointText p') = _ :: (pointText b ++ ' ' :: pointText p)
      rw [hbr.text_eq, hpr.text_eq]
      rfl
  | cubicTo f a b p =>
    obtain ⟨b', p', hb, hp, hbr, hpr⟩ := points_text separators_space hr hc.2.1 hc.2.2
    obtain ⟨a', ha, har⟩ := point_text separators_nil
      (stops_space (pointText b ++ ' ' :: (pointText p ++ r))) hc.1
    refine ⟨.cubicTo f a' b' p', ?_, ?_, ?_⟩
    · show Operands f _ ((pointText a ++ ' ' :: (pointText b ++ ' ' :: pointText p)) ++ r) _ r
      rw [List.append_assoc, List.cons_append, List.append_assoc]
      exact .cubic ha hb hp
    · show (f == f && (a' == a && (b' == b && p' == p))) = true
      simp [har.beq, hbr.beq, hpr.beq]
    · show _ :: (pointText a' ++ ' ' :: (pointText b' ++ ' ' :: pointText p')) =
        _ :: (pointText a ++ ' ' :: (pointText b ++ ' ' :: pointText p))
      rw [har.text_eq, hbr.text_eq, hpr.text_eq]
      rfl
  | arcTo f shape p =>
    obtain ⟨radii, rotation, large, sweep⟩ := shape
    obtain ⟨p', hp, hpr⟩ := point_text separators_space hr hc.2.2
    -- the flags stand between the rotation and the target
    have hsweep := flag_text sweep (' ' :: (pointText p ++ r))
    have hlarge := flag_text large (' ' :: flagChar sweep :: ' ' :: (pointText p ++ r))
    obtain ⟨rotation', hrotation, hrotationr⟩ := number_text separators_space
      (stops_space (flagChar large :: ' ' :: flagChar sweep :: ' ' :: (pointText p ++ r))) hc.2.1
    obtain ⟨radii', hradii, hradiir⟩ := point_text separators_nil
      (stops_space (rotation.compactText ++ ' ' :: flagChar large :: ' ' :: flagChar sweep :: ' ' ::
        (pointText p ++ r))) hc.1
    refine ⟨.arcTo f ⟨radii', rotation', large, sweep⟩ p', ?_, ?_, ?_⟩
    · show Operands f _ ((pointText radii ++ ' ' :: rotation.compactText ++
        [' ', flagChar large, ' ', flagChar sweep, ' '] ++ pointText p) ++ r) _ r
      simp only [List.append_assoc, List.cons_append, List.nil_append]
      exact .arc (.intro hradii hrotation hlarge hsweep) hp
    · show (f == f && ((radii' == radii && (rotation' == rotation && (large == large &&
        sweep == sweep))) && p' == p)) = true
      simp [hradiir.beq, hrotationr.beq, hpr.beq]
    · show _ :: (pointText radii' ++ ' ' :: rotation'.compactText ++ _ ++ pointText p') =
        _ :: (pointText radii ++ ' ' :: rotation.compactText ++ _ ++ pointText p)
      rw [hradiir.text_eq, hrotationr.text_eq, hpr.text_eq]
      rfl
  | close => exact ⟨.close, .close, rfl, rfl⟩

/-! ## §3. Path data. -/

/-- **Commands are read back as groups**, one by one. -/
theorem format_groups {cs : List Command} (hcs : ∀ c ∈ cs, Finite c)
    (previous : Option CommandLetter) :
    ∃ cs', Groups previous (formatChars cs) cs' ∧ Reread formatChars cs' cs := by
  induction cs generalizing previous with
  | nil => exact ⟨[], .done separators_nil, rfl, rfl⟩
  | cons c cs ih =>
    obtain ⟨cs', hcs', hbeqs, htexts⟩ := ih (fun x hx => hcs x (List.mem_cons_of_mem _ hx))
      c.letter.continued?
    obtain ⟨c', hc', hbeq, htext⟩ := operands_text (hcs c List.mem_cons_self) (stops_formatChars cs)
    refine ⟨c' :: cs', .lettered separators_nil hc' hcs', ?_, ?_⟩
    · simp [hbeq, hbeqs]
    · show commandText c' ++ formatChars cs' = commandText c ++ formatChars cs
      rw [htext, htexts]

/-- What is written for commands which begin with a move is path data. -/
theorem format_derived {cs : List Command} (hcs : ∀ c ∈ cs, Finite c)
    (hstart : cs = [] ∨ ∃ f p rest, cs = .moveTo f p :: rest) :
    ∃ cs', PathData (formatChars cs) cs' ∧ Reread formatChars cs' cs := by
  rcases hstart with rfl | ⟨f, p, rest, rfl⟩
  · exact ⟨[], .empty separators_nil, rfl, rfl⟩
  · obtain ⟨cs', hcs', hbeqs, htexts⟩ := format_groups
      (fun c hc => hcs c (List.mem_cons_of_mem _ hc)) (some ⟨.line, f⟩)
    obtain ⟨q, hq, hbeq, htext⟩ := point_text separators_nil (stops_formatChars rest)
      (hcs (.moveTo f p) List.mem_cons_self)
    refine ⟨.moveTo f q :: cs', .starting separators_nil hq hcs', ?_, ?_⟩
    · have hmove : (Command.moveTo f q == .moveTo f p) = true := by
        show (f == f && q == p) = true
        simp [hbeq]
      simp [hmove, hbeqs]
    · show _ :: (pointText q ++ formatChars cs') = _ :: (pointText p ++ formatChars rest)
      rw [htext, htexts]
      rfl

/-- **Formatting and parsing are inverse.**  Commands which begin with a move and
    have finite operands are read back from their text, equal one by one, and have
    the same text again; so are those which were read from any text. -/
theorem parse_format :
    (∀ cs : List Command, (cs = [] ∨ ∃ f p rest, cs = .moveTo f p :: rest) →
      (∀ c ∈ cs, Finite c) →
      ∃ cs', parse (format cs) = .ok cs' ∧ (cs' == cs) = true ∧ format cs' = format cs) ∧
    (∀ (d : String) (cs : List Command), parse d = .ok cs →
      ∃ cs', parse (format cs) = .ok cs' ∧ (cs' == cs) = true) := by
  have hread : ∀ cs : List Command, (cs = [] ∨ ∃ f p rest, cs = .moveTo f p :: rest) →
      (∀ c ∈ cs, Finite c) →
      ∃ cs', parse (format cs) = .ok cs' ∧ (cs' == cs) = true ∧ format cs' = format cs := by
    intro cs hstart hcs
    obtain ⟨cs', hderived, hbeq, htext⟩ := format_derived hcs hstart
    refine ⟨cs', ?_, hbeq, congrArg String.ofList htext⟩
    have hparsed := parseChars_iff.2 hderived
    unfold parse format
    simp [hparsed]
  refine ⟨hread, fun d cs hd => ?_⟩
  obtain ⟨cs', hparse, hbeq, -⟩ := hread cs (parse_starts hd) (parse_finite hd)
  exact ⟨cs', hparse, hbeq⟩

/-- Commands of many kinds: minus zero, a fraction, exponents of both signs, and
    operands whose texts could run into each other. -/
def writtenCommands : List Command :=
  [.moveTo .absolute ⟨-0.0, 0.5⟩, .lineTo .relative ⟨1e-7, -3e38⟩, .horizontalTo .absolute 1.5e9,
    .arcTo .relative ⟨⟨1.0, 2.25⟩, -30.0, true, false⟩ ⟨0.1, -0.1⟩, .close,
    .smoothCubicTo .relative ⟨999999999.0, 1.0⟩ ⟨-2.0, 33.3⟩]

theorem parse_format_writtenCommands :
    (∃ cs', parse (format writtenCommands) = .ok cs' ∧ (cs' == writtenCommands) = true ∧
      format cs' = format writtenCommands) ∧
    ∃ cs, parse "m1 2-3.5.5h1e1z" = .ok cs ∧
      ∃ cs', parse (format cs) = .ok cs' ∧ (cs' == cs) = true := by
  have hfinite : ∀ c ∈ writtenCommands, Finite c := by
    unfold Finite
    decide +kernel
  have hsome : (parse "m1 2-3.5.5h1e1z").toOption.isSome = true := by decide +kernel
  refine ⟨parse_format.1 writtenCommands (.inr ⟨_, _, _, rfl⟩) hfinite, ?_⟩
  obtain ⟨cs, hparse⟩ := Except.exists_ok hsome
  exact ⟨cs, hparse, parse_format.2 _ cs hparse⟩

end Path

end VectorIcon

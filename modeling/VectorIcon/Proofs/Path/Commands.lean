/-
  VectorIcon.Proofs.Path.Commands
  ────────────────────────────────
  **WHAT IS READ FROM PATH DATA.**

  A command is read letter first (`Reader.letter_iff`), then its operands
  (`Reader.command_some_iff`).  Whatever the text, the commands which are read
  from it begin with a move (`Path.parse_starts`), and all their operands are
  finite numbers (`Path.parse_finite`): a number which is too large is a fault.
-/
import VectorIcon.Path.Parser
import VectorIcon.Proofs.Lists

namespace VectorIcon

/-! ## §1. Operands. -/

/-- Both coordinates satisfy a predicate. -/
def Point.All (holds : Scalar → Prop) (p : Point) : Prop := holds p.x ∧ holds p.y

/-- The operands of a command satisfy a predicate, the rotation of an arc one of
    its own. -/
def Command.All (number angle : Scalar → Prop) : Command → Prop
  | .moveTo _ p | .lineTo _ p | .smoothQuadTo _ p => p.All number
  | .horizontalTo _ v | .verticalTo _ v => number v
  | .quadTo _ c p | .smoothCubicTo _ c p => c.All number ∧ p.All number
  | .cubicTo _ b c p => b.All number ∧ c.All number ∧ p.All number
  | .arcTo _ s p => s.radii.All number ∧ angle s.rotation ∧ p.All number
  | .close => True

theorem Point.All.imp {P Q : Scalar → Prop} (h : ∀ x, P x → Q x) {p : Point} (hp : p.All P) : p.All Q :=
  ⟨h _ hp.1, h _ hp.2⟩

theorem Command.All.imp {P Q A B : Scalar → Prop} (h : ∀ x, P x → Q x) (hangle : ∀ x, A x → B x)
    {c : Command} (hc : c.All P A) : c.All Q B := by
  cases c with
  | moveTo | lineTo | smoothQuadTo => exact Point.All.imp h hc
  | horizontalTo | verticalTo => exact h _ hc
  | quadTo | smoothCubicTo => exact ⟨hc.1.imp h, hc.2.imp h⟩
  | cubicTo => exact ⟨hc.1.imp h, hc.2.1.imp h, hc.2.2.imp h⟩
  | arcTo => exact ⟨hc.1.imp h, hangle _ hc.2.1, hc.2.2.imp h⟩
  | close => exact trivial

instance Point.decidableAll {P : Scalar → Prop} [DecidablePred P] (p : Point) : Decidable (p.All P) :=
  inferInstanceAs (Decidable (P p.x ∧ P p.y))

instance Command.decidableAll {P A : Scalar → Prop} [DecidablePred P] [DecidablePred A] :
    (c : Command) → Decidable (c.All P A)
  | .moveTo _ p | .lineTo _ p | .smoothQuadTo _ p => inferInstanceAs (Decidable (p.All P))
  | .horizontalTo _ v | .verticalTo _ v => inferInstanceAs (Decidable (P v))
  | .quadTo _ c p | .smoothCubicTo _ c p => inferInstanceAs (Decidable (c.All P ∧ p.All P))
  | .cubicTo _ b c p => inferInstanceAs (Decidable (b.All P ∧ c.All P ∧ p.All P))
  | .arcTo _ s p => inferInstanceAs (Decidable (s.radii.All P ∧ A s.rotation ∧ p.All P))
  | .close => .isTrue trivial

namespace Path

/-! ## §2. How commands are read. -/

/-- A letter is the one it stands for. -/
theorem ofChar?_some {c : Char} {l : CommandLetter} (h : CommandLetter.ofChar? c = some l) :
    c = l.toChar := by
  unfold CommandLetter.ofChar? at h
  split at h <;> cases h <;> rfl

namespace Reader

/-- **Which letter operands belong to**: the one the text begins with, or the
    continued one if it begins with no letter. -/
theorem letter_iff {r : Reader} {cs t : List Char} {l : CommandLetter} :
    r.letter cs = .ok (l, t) ↔ (r.started = true ∨ l.kind = .move) ∧
      (cs = l.toChar :: t ∨ r.continued = some l ∧ t = cs ∧
        ∃ c u, cs = c :: u ∧ CommandLetter.ofChar? c = none ∧ ¬isAsciiLetter c = true) := by
  cases cs with
  | nil => simp [letter]
  | cons c u =>
    cases hc : CommandLetter.ofChar? c with
    | some k =>
      obtain rfl := ofChar?_some hc
      have hk : ∀ l, k.toChar = l.toChar ↔ k = l := fun l =>
        ⟨fun h => Option.some.inj (hc.symm.trans (h ▸ CommandLetter.ofChar?_toChar l)),
          fun h => h ▸ rfl⟩
      by_cases hs : r.started = true ∨ k.kind = .move
      · simp [letter, hc, hs, hk]
        grind
      · simp [letter, hc, hs, hk]
        grind
    | none =>
      have hne : ∀ l : CommandLetter, c ≠ l.toChar := fun l h => by
        rw [h, CommandLetter.ofChar?_toChar] at hc
        cases hc
      by_cases ha : isAsciiLetter c = true
      · simp [letter, hc, ha, hne]
      · cases hr : r.continued with
        | none => simp [letter, hc, ha, hne, hr]
        | some k =>
          by_cases hs : r.started = true ∨ k.kind = .move
          · simp [letter, hc, ha, hne, hr, hs]
            grind
          · simp [letter, hc, ha, hne, hr, hs]
            grind

theorem command_none {r : Reader} : r.command = .ok none ↔ skipSeparators r.rest = [] := by
  unfold command
  split
  · next h => simp [h]
  · next h =>
    refine ⟨fun hrun => ?_, fun hrest => absurd hrest h⟩
    split at hrun <;> cases hrun

/-- **How a command is read**: its letter, then its operands. -/
theorem command_some_iff {r s : Reader} {c : Command} :
    r.command = .ok (some (c, s)) ↔ ∃ l t u, r.letter (skipSeparators r.rest) = .ok (l, t) ∧
      operands l t = .ok (c, u) ∧ s = afterCommand l u := by
  unfold command
  split
  · next h => simp [h, letter]
  · refine ⟨fun hrun => ?_, fun ⟨l, t, u, hl, hc, hs⟩ => ?_⟩
    · split at hrun
      · cases hrun
      · next l c' rest hread =>
        cases hrun
        obtain ⟨l', t, hl, hread⟩ := Scan.bind_ok.1 hread
        obtain ⟨c'', u, hc, hread⟩ := Scan.bind_ok.1 hread
        obtain ⟨heq, rfl⟩ := Scan.pure_ok.1 hread
        obtain ⟨rfl, rfl⟩ := Prod.mk.inj heq
        exact ⟨_, t, _, hl, hc, rfl⟩
    · have hread : (do let l ← r.letter; return (l, ← operands l) : Reading _)
          (skipSeparators r.rest) = .ok ((l, c), u) :=
        Scan.bind_ok.2 ⟨l, t, hl, Scan.bind_ok.2 ⟨c, u, hc, Scan.pure_ok.2 ⟨rfl, rfl⟩⟩⟩
      rw [hread, hs]

theorem readAll_none {r : Reader} {h : r.WellFormed} (hc : r.command = .ok none) :
    r.readAll h = ⟨[], none⟩ := by
  rw [readAll]
  split <;> simp_all

theorem readAll_error {r : Reader} {h : r.WellFormed} {f : Fault} (hc : r.command = .error f) :
    r.readAll h = ⟨[], some f⟩ := by
  rw [readAll]
  split <;> simp_all

theorem readAll_some {r s : Reader} {h : r.WellFormed} {c : Command}
    (hc : r.command = .ok (some (c, s))) :
    r.readAll h = ⟨c :: (s.readAll (command_some h hc).2).commands,
      (s.readAll (command_some h hc).2).fault⟩ := by
  rw [readAll]
  split
  · next heq =>
    rw [hc] at heq
    cases heq
  · next heq =>
    rw [hc] at heq
    cases heq
  · next heq =>
    rw [hc] at heq
    cases heq
    rfl

end Reader

/-! ## §3. The first command. -/

theorem operands_move {l : CommandLetter} {s t : List Char} {c : Command} (hl : l.kind = .move)
    (h : operands l s = .ok (c, t)) : ∃ f p, c = .moveTo f p := by
  unfold operands at h
  rw [hl] at h
  obtain ⟨p, u, -, hp⟩ := Scan.bind_ok.1 h
  exact ⟨l.frame, p, (Scan.pure_ok.1 hp).1⟩

theorem Reader.command_unstarted {r s : Reader} {c : Command} (hr : r.started = false)
    (h : r.command = .ok (some (c, s))) : ∃ f p, c = .moveTo f p := by
  obtain ⟨l, t, u, hl, hc, -⟩ := command_some_iff.1 h
  obtain ⟨hmove, -⟩ := letter_iff.1 hl
  exact operands_move (by simpa [hr] using hmove) hc

/-- **Commands which are read begin with a move**, if there are any. -/
theorem parse_starts {d : String} {cs : List Command} (h : parse d = .ok cs) :
    cs = [] ∨ ∃ f p rest, cs = .moveTo f p :: rest := by
  unfold parse at h
  simp only at h
  split at h
  · cases h
    unfold parseChars
    rw [Reader.readAll]
    split
    · exact .inl rfl
    · exact .inl rfl
    · next c s hc =>
      obtain ⟨f, p, rfl⟩ := Reader.command_unstarted rfl hc
      exact .inr ⟨f, p, _, rfl⟩
  · cases h

/-! ## §4. Finite numbers. -/

/-- Whatever the reading gives satisfies a predicate. -/
def Yields {α : Type} (p : Reading α) (holds : α → Prop) : Prop :=
  ∀ s a t, p s = .ok (a, t) → holds a

namespace Yields

variable {α β : Type} {p : Reading α} {f : α → Reading β} {P : α → Prop} {Q : β → Prop}

theorem pure {a : α} (h : P a) : Yields (Pure.pure a) P := by
  intro s b t hrun
  rw [(Scan.pure_ok.1 hrun).1]
  exact h

theorem bind (hp : Yields p P) (hf : ∀ a, P a → Yields (f a) Q) : Yields (p >>= f) Q := by
  intro s b t hrun
  obtain ⟨a, u, ha, hb⟩ := Scan.bind_ok.1 hrun
  exact hf a (hp s a u ha) u b t hb

end Yields

theorem number_finite : Yields number fun x => x.isFinite = true := by
  intro s x t h
  unfold number at h
  simp only at h
  split at h
  · cases h
  · cases h
  · split at h
    · next hfinite =>
      cases h
      exact hfinite
    · cases h

theorem point_finite : Yields point (Point.All fun x => x.isFinite = true) :=
  number_finite.bind fun _ hx => number_finite.bind fun _ hy => .pure ⟨hx, hy⟩

theorem flag_anything : Yields flag fun _ => True := fun _ _ _ _ => trivial

theorem arcShape_finite : Yields arcShape fun s =>
    (s.radii.All fun x => x.isFinite = true) ∧ s.rotation.isFinite = true :=
  point_finite.bind fun _ hradii => number_finite.bind fun _ hrotation =>
    flag_anything.bind fun _ _ => flag_anything.bind fun _ _ => .pure ⟨hradii, hrotation⟩

/-- The operands are finite, and so are rotations. -/
def Finite (c : Command) : Prop := c.All (fun x => x.isFinite = true) fun r => r.isFinite = true

theorem operands_finite (l : CommandLetter) : Yields (operands l) Finite := by
  unfold operands
  split
  · exact point_finite.bind fun _ h => .pure h
  · exact point_finite.bind fun _ h => .pure h
  · exact number_finite.bind fun _ h => .pure h
  · exact number_finite.bind fun _ h => .pure h
  · exact point_finite.bind fun _ h => point_finite.bind fun _ h' => point_finite.bind fun _ h'' =>
      .pure ⟨h, h', h''⟩
  · exact point_finite.bind fun _ h => point_finite.bind fun _ h' => .pure ⟨h, h'⟩
  · exact point_finite.bind fun _ h => point_finite.bind fun _ h' => .pure ⟨h, h'⟩
  · exact point_finite.bind fun _ h => .pure h
  · exact arcShape_finite.bind fun _ h => point_finite.bind fun _ h' => .pure ⟨h.1, h.2, h'⟩
  · exact .pure trivial

theorem Reader.command_finite {r s : Reader} {c : Command} (h : r.command = .ok (some (c, s))) :
    Finite c := by
  obtain ⟨l, t, u, -, hc, -⟩ := command_some_iff.1 h
  exact operands_finite l t c u hc

theorem Reader.readAll_finite (r : Reader) (h : r.WellFormed) : ∀ c ∈ (r.readAll h).commands, Finite c := by
  -- The recursion of the reader itself: the end, a fault, and one more command.
  fun_induction Reader.readAll r h with
  | case1 => intro c hc; cases hc
  | case2 => intro c hc; cases hc
  | case3 r h c s hcommand p ih =>
    intro c' hc'
    rcases List.mem_cons.1 hc' with rfl | hc'
    · exact command_finite hcommand
    · exact ih c' hc'

/-- **All numbers which are read are finite.** -/
theorem parse_finite {d : String} {cs : List Command} (h : parse d = .ok cs) : ∀ c ∈ cs, Finite c := by
  unfold parse at h
  simp only at h
  split at h
  · cases h
    exact Reader.readAll_finite _ _
  · cases h

theorem parse_all_finite {α : Type} {data : α → String} {ps : List α} {css : List (List Command)}
    (h : (ps.mapM fun p => parse (data p)) = .ok css) : ∀ cs ∈ css, ∀ c ∈ cs, Finite c :=
  List.forall_of_mapM (fun _ _ => parse_finite) h

end Path

end VectorIcon

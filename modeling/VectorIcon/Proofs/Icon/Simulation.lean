/-
  VectorIcon.Proofs.Icon.Simulation
  ────────────────────────────────
  **A PATH IN AN ICON AND ITS REFERENCE ARE DRAWN COMMAND BY COMMAND.**

  Three machines follow the commands of a path: the pen which writes them, the
  plotter which draws what is read back, and the cursor whose segments are the
  reference.  A `Stage` is where the three have arrived.  They do not keep step
  by themselves: the reference closes a sub-path at once, the pen only when the
  next command asks for it.  `closedLate` is the reference with every close put
  off in the same way, and from then on one command of the pen is one command of
  the cursor:

      Simulates.segments   — if every command keeps an invariant and draws
                             related segments, so does the rest of a path
      Simulates.outline    — a whole path, from its first move on
-/
import Mathlib.Data.List.Forall2
import VectorIcon.Icon.Decoder
import VectorIcon.Icon.Reference
import VectorIcon.Proofs.Icon.Runs

namespace VectorIcon

/-- Neither a move nor a close. -/
def Segment.Draws : Segment → Prop
  | .move _ | .close _ => False
  | _ => True

/-- Segments of the same kind and with the same flags, whose points and angles
    are related one by one. -/
inductive Segment.Matches (points : Point → Point → Prop) (angles : Scalar → Scalar → Prop) :
    Segment → Segment → Prop where
  | move {p q : Point} : points p q → Matches points angles (.move p) (.move q)
  | line {p q : Point} : points p q → Matches points angles (.line p) (.line q)
  | quad {c d p q : Point} : points c d → points p q → Matches points angles (.quad c p) (.quad d q)
  | cubic {b b' c d p q : Point} : points b b' → points c d → points p q →
    Matches points angles (.cubic b c p) (.cubic b' d q)
  | arc {r r' p q : Point} {v w : Scalar} {large sweep : Bool} : points r r' → angles v w → points p q →
    Matches points angles (.arc ⟨r, v, large, sweep⟩ p) (.arc ⟨r', w, large, sweep⟩ q)
  | close {p q : Point} : points p q → Matches points angles (.close p) (.close q)

/-- One match after the other. -/
theorem Segment.Matches.trans {P Q R : Point → Point → Prop} {A B C : Scalar → Scalar → Prop}
    (hpoints : ∀ {p q r}, P p q → Q q r → R p r) (hangles : ∀ {a b c}, A a b → B b c → C a c)
    {a b c : Segment} (h : a.Matches P A b) (h' : b.Matches Q B c) : a.Matches R C c := by
  cases h with
  | move h =>
    cases h' with
    | move h' => exact .move (hpoints h h')
  | line h =>
    cases h' with
    | line h' => exact .line (hpoints h h')
  | quad hc hp =>
    cases h' with
    | quad hc' hp' => exact .quad (hpoints hc hc') (hpoints hp hp')
  | cubic hb hc hp =>
    cases h' with
    | cubic hb' hc' hp' => exact .cubic (hpoints hb hb') (hpoints hc hc') (hpoints hp hp')
  | arc hr ha hp =>
    cases h' with
    | arc hr' ha' hp' => exact .arc (hpoints hr hr') (hangles ha ha') (hpoints hp hp')
  | close h =>
    cases h' with
    | close h' => exact .close (hpoints h h')

namespace Icon

/-! ## §1. Plotting in parts. -/

namespace Plotter

/-- The plotter after instructions. -/
def after (p : Plotter) (is : List Instruction) : Plotter := is.foldl (fun p i => (p.step i).2) p

/-- The segments which instructions draw. -/
def segments (p : Plotter) (is : List Instruction) : List Segment := (p.run is).map (·.segment)

theorem segments_append (p : Plotter) (is js : List Instruction) :
    p.segments (is ++ js) = p.segments is ++ (p.after is).segments js := by
  -- the plotter is passed on from instruction to instruction
  induction is generalizing p with
  | nil => rfl
  | cons i is ih =>
    have h : List.map (·.segment) ((p.step i).2.run (is ++ js)) =
        List.map (·.segment) ((p.step i).2.run is) ++ ((p.step i).2.after is).segments js := ih _
    show List.map _ ((p.step i).1 ++ (p.step i).2.run (is ++ js)) =
      List.map _ ((p.step i).1 ++ (p.step i).2.run is) ++ ((p.step i).2.after is).segments js
    rw [List.map_append, List.map_append, h, List.append_assoc]

end Plotter

/-- The segments of an outline. -/
def Outline.segments (o : Outline) : List Segment := o.strokes.map (·.segment)

/-! ## §2. Closing late. -/

/-- What `closeSubPaths` leaves, with a close put off until the next command
    needs it: a closed sub-path still owes its close. -/
def closedLate (p : SubPath) (ss : List Segment) : List Segment :=
  (if p.closed then [.close p.start] else []) ++ closeSubPaths (some p) ss

theorem closedLate_nil (p : SubPath) : closedLate p [] = [.close p.start] := by
  obtain ⟨start, closed⟩ := p
  cases closed <;> rfl

theorem closedLate_move (p : SubPath) (target : Point) (ss : List Segment) :
    closedLate p (.move target :: ss) =
      .close p.start :: .move target :: closedLate ⟨target, false⟩ ss := by
  obtain ⟨start, closed⟩ := p
  cases closed <;> rfl

/-- A close is only noted. -/
theorem closedLate_close (p : SubPath) (q : Point) (ss : List Segment) :
    closedLate p (.close q :: ss) = closedLate ⟨p.start, true⟩ ss := by
  obtain ⟨start, closed⟩ := p
  cases closed <;> rfl

theorem closedLate_open {s : Segment} (hs : s.Draws) (start : Point) (ss : List Segment) :
    closedLate ⟨start, false⟩ (s :: ss) = s :: closedLate ⟨start, false⟩ ss := by
  cases s with
  | move | close => exact hs.elim
  | line | quad | cubic | arc => rfl

/-- Drawing on a closed sub-path opens a new one. -/
theorem closedLate_closed {s : Segment} (hs : s.Draws) (start : Point) (ss : List Segment) :
    closedLate ⟨start, true⟩ (s :: ss) =
      .close start :: .move start :: closedLate ⟨start, false⟩ (s :: ss) := by
  cases s with
  | move | close => exact hs.elim
  | line | quad | cubic | arc => rfl

/-- Commands which draw resolve to segments which do. -/
theorem mapSegment_resolve_draws (t : Transform) (cursor : Cursor) {c : Command}
    (hc : Pen.needsOpen c = true) : (mapSegment t (cursor.resolve c)).Draws := by
  cases c with
  | moveTo | close => cases hc
  | lineTo | horizontalTo | verticalTo | cubicTo | smoothCubicTo | quadTo | smoothQuadTo | arcTo =>
    exact trivial

/-- Drawing stays in the sub-path and does not close it. -/
theorem Pen.draw_keeps (pen : Pen) (t : Transform) {c : Command} (hc : Pen.needsOpen c = true) :
    (pen.draw t c).2.start = pen.start ∧ (pen.draw t c).2.closed = pen.closed := by
  cases c with
  | moveTo | close => cases hc
  | lineTo | horizontalTo | verticalTo | cubicTo | quadTo | arcTo => exact ⟨rfl, rfl⟩
  | smoothCubicTo f second target =>
    unfold Pen.draw
    simp only
    split <;> exact ⟨rfl, rfl⟩
  | smoothQuadTo f target =>
    unfold Pen.draw
    simp only
    split <;> exact ⟨rfl, rfl⟩

/-! ## §3. Stages. -/

/-- How far a path is written, read back and resolved. -/
structure Stage where
  pen : Pen
  plotter : Plotter
  cursor : Cursor

namespace Stage

variable (t : Transform) (read : Scalar → Scalar)

/-- The current sub-path of the reference. -/
def subPath (s : Stage) : SubPath := ⟨t.apply s.cursor.start, s.pen.closed⟩

/-- The stage after a command on an open sub-path. -/
def draw (s : Stage) (c : Command) : Stage :=
  ⟨(s.pen.draw t c).2, s.plotter.after ((s.pen.draw t c).1.map (Instruction.readAs read)), (s.cursor.step c).2⟩

/-- The stage after the pen closed a sub-path and began a new one where it is. -/
def restart (s : Stage) : Stage :=
  ⟨(s.pen.closeMove s.pen.start).2,
    (s.plotter.step ((s.pen.closeMove s.pen.start).1.readAs read)).2, s.cursor⟩

/-- The stage after the move which begins a path. -/
def initial (f : Frame) (target : Point) : Stage :=
  let start := quantize (t.apply target)
  ⟨.startingAt start, .startingAt (start.map read), (Cursor.initial.step (.moveTo f target)).2⟩

/-- The segments which the rest of the icon draws. -/
def drawn (s : Stage) (cs : List Command) : List Segment :=
  s.plotter.segments ((s.pen.drawAll t cs ++ [Instruction.endPath]).map (Instruction.readAs read))

/-- The rest of the reference. -/
def expected (s : Stage) (cs : List Command) : List Segment :=
  closedLate (s.subPath t) ((s.cursor.resolveAll cs).map (mapSegment t))

/-- What the pen writes next is drawn next. -/
theorem drawn_cons (s : Stage) {c : Command} (h : s.pen.step t c = s.pen.draw t c)
    (cs : List Command) :
    s.drawn t read (c :: cs) =
      s.plotter.segments ((s.pen.draw t c).1.map (Instruction.readAs read)) ++ (s.draw t read c).drawn t read cs := by
  unfold drawn
  show s.plotter.segments (((s.pen.step t c).1 ++ (s.pen.step t c).2.drawAll t cs ++ _).map _) = _
  rw [h, List.append_assoc, List.map_append, Plotter.segments_append]
  rfl

/-- An open sub-path is drawn on as it is. -/
theorem step_open {pen : Pen} (h : pen.closed = false) (c : Command) : pen.step t c = pen.draw t c := by
  unfold Pen.step
  rw [h]
  rfl

/-- A command which does not draw leaves a closed sub-path closed. -/
theorem step_idle (pen : Pen) {c : Command} (h : Pen.needsOpen c = false) :
    pen.step t c = pen.draw t c := by
  unfold Pen.step
  rw [h, Bool.and_false]
  rfl

/-- Drawing on a closed sub-path first closes it and begins a new one. -/
theorem drawn_closed {s : Stage} {c : Command} (hclosed : s.pen.closed = true)
    (hc : Pen.needsOpen c = true) (cs : List Command) :
    s.drawn t read (c :: cs) =
      .close s.plotter.start :: .move (s.restart read).plotter.start ::
        (s.restart read).drawn t read (c :: cs) := by
  have hstep : s.pen.step t c =
      ((s.pen.closeMove s.pen.start).1 :: ((s.restart read).pen.step t c).1,
        ((s.restart read).pen.step t c).2) := by
    rw [step_open t (show (s.restart read).pen.closed = false from rfl)]
    unfold Pen.step
    rw [hclosed, hc]
    rfl
  unfold drawn
  show s.plotter.segments (((s.pen.step t c).1 ++ (s.pen.step t c).2.drawAll t cs ++ _).map _) = _
  rw [hstep]
  rfl

theorem draw_start (s : Stage) {c : Command} (hc : Pen.needsOpen c = true) :
    (s.draw t read c).cursor.start = s.cursor.start := by
  cases c with
  | moveTo | close => cases hc
  | lineTo | horizontalTo | verticalTo | cubicTo | smoothCubicTo | quadTo | smoothQuadTo | arcTo => rfl

theorem draw_subPath (s : Stage) {c : Command} (hc : Pen.needsOpen c = true) :
    (s.draw t read c).subPath t = s.subPath t := by
  unfold subPath
  rw [show (s.draw t read c).pen.closed = s.pen.closed from (s.pen.draw_keeps t hc).2,
    draw_start t read s hc]

/-- The reference goes on with a command which draws. -/
theorem expected_open {s : Stage} {c : Command} (hclosed : s.pen.closed = false)
    (hc : Pen.needsOpen c = true) (cs : List Command) :
    s.expected t (c :: cs) = mapSegment t (s.cursor.resolve c) :: (s.draw t read c).expected t cs := by
  show closedLate ⟨_, s.pen.closed⟩ (mapSegment t (s.cursor.resolve c) :: _) =
    _ :: closedLate ((s.draw t read c).subPath t) _
  rw [draw_subPath t read s hc, hclosed, closedLate_open (mapSegment_resolve_draws t s.cursor hc)]
  unfold subPath
  rw [hclosed]
  rfl

/-- It closes and begins again before a command draws on a closed sub-path. -/
theorem expected_closed {s : Stage} {c : Command} (hclosed : s.pen.closed = true)
    (hc : Pen.needsOpen c = true) (cs : List Command) :
    s.expected t (c :: cs) = .close (t.apply s.cursor.start) :: .move (t.apply s.cursor.start) ::
      (s.restart read).expected t (c :: cs) := by
  show closedLate ⟨_, s.pen.closed⟩ (mapSegment t (s.cursor.resolve c) :: _) = _
  rw [hclosed, closedLate_closed (mapSegment_resolve_draws t s.cursor hc)]
  rfl

/-- A close is put off. -/
theorem expected_close (s : Stage) (cs : List Command) :
    s.expected t (.close :: cs) = (s.draw t read .close).expected t cs := closedLate_close _ _ _

/-- A move closes first. -/
theorem expected_move (s : Stage) (f : Frame) (target : Point) (cs : List Command) :
    s.expected t (.moveTo f target :: cs) =
      .close (t.apply s.cursor.start) :: mapSegment t (s.cursor.resolve (.moveTo f target)) ::
        (s.draw t read (.moveTo f target)).expected t cs := closedLate_move _ _ _

end Stage

/-! ## §4. Simulation. -/

/-- The commands of a path keep an invariant of the stage, and the segments they
    draw are related to those of the reference, as far as these are admitted. -/
structure Simulates (t : Transform) (read : Scalar → Scalar) (related : Segment → Segment → Prop)
    (admitted : Segment → Prop) (invariant : List Command → Stage → Prop) : Prop where
  /-- Closing a sub-path leads to its start. -/
  closing : ∀ {cs s}, invariant cs s → admitted (.close (t.apply s.cursor.start)) →
    related (.close s.plotter.start) (.close (t.apply s.cursor.start))
  close : ∀ {cs s}, invariant (.close :: cs) s → invariant cs (s.draw t read .close)
  move : ∀ {f target cs s}, invariant (.moveTo f target :: cs) s →
    admitted (mapSegment t (s.cursor.resolve (.moveTo f target))) →
    related (.move (s.draw t read (.moveTo f target)).plotter.start)
        (mapSegment t (s.cursor.resolve (.moveTo f target))) ∧
      invariant cs (s.draw t read (.moveTo f target))
  restart : ∀ {c cs s}, invariant (c :: cs) s → s.pen.closed = true → Pen.needsOpen c = true →
    admitted (.move (t.apply s.cursor.start)) →
    related (.move (s.restart read).plotter.start) (.move (t.apply s.cursor.start)) ∧
      invariant (c :: cs) (s.restart read)
  draw : ∀ {c cs s}, invariant (c :: cs) s → s.pen.closed = false → Pen.needsOpen c = true →
    admitted (mapSegment t (s.cursor.resolve c)) →
    List.Forall₂ related (s.plotter.segments ((s.pen.draw t c).1.map (Instruction.readAs read)))
        [mapSegment t (s.cursor.resolve c)] ∧
      invariant cs (s.draw t read c)

namespace Simulates

variable {t : Transform} {read : Scalar → Scalar} {related : Segment → Segment → Prop}
  {admitted : Segment → Prop} {invariant : List Command → Stage → Prop}

/-- **What an icon draws is related to the reference**, from any stage which
    satisfies the invariant on, if the rest of the reference is admitted. -/
theorem segments (h : Simulates t read related admitted invariant) :
    ∀ (cs : List Command) (s : Stage), invariant cs s → (∀ g ∈ s.expected t cs, admitted g) →
      List.Forall₂ related (s.drawn t read cs) (s.expected t cs) := by
  -- the induction is on the commands, for every stage at once
  intro cs
  induction cs with
  | nil =>
    intro s hs hadmitted
    have hexpected : s.expected t [] = [.close (t.apply s.cursor.start)] := closedLate_nil _
    rw [hexpected] at hadmitted ⊢
    exact .cons (h.closing hs (hadmitted _ List.mem_cons_self)) .nil
  | cons c cs ih =>
    -- drawing on an open sub-path is one step on both sides
    have hopen : ∀ s : Stage, invariant (c :: cs) s → s.pen.closed = false → Pen.needsOpen c = true →
        (∀ g ∈ s.expected t (c :: cs), admitted g) →
        List.Forall₂ related (s.drawn t read (c :: cs)) (s.expected t (c :: cs)) := by
      intro s hs hclosed hc hadmitted
      rw [Stage.expected_open t read hclosed hc] at hadmitted ⊢
      rw [Stage.drawn_cons t read s (Stage.step_open t hclosed c)]
      obtain ⟨hdraw, hnext⟩ := h.draw hs hclosed hc (hadmitted _ List.mem_cons_self)
      exact List.rel_append hdraw
        (ih _ hnext fun g hg => hadmitted g (List.mem_cons_of_mem _ hg))
    intro s hs hadmitted
    by_cases hc : Pen.needsOpen c = true
    · by_cases hclosed : s.pen.closed = true
      · -- both sides close and begin again, and then the sub-path is open
        rw [Stage.expected_closed t read hclosed hc] at hadmitted ⊢
        rw [Stage.drawn_closed t read hclosed hc]
        have hclose := h.closing hs (hadmitted _ List.mem_cons_self)
        obtain ⟨hmove, hnext⟩ := h.restart hs hclosed hc
          (hadmitted _ (List.mem_cons_of_mem _ List.mem_cons_self))
        exact .cons hclose (.cons hmove (hopen _ hnext rfl hc fun g hg =>
          hadmitted g (List.mem_cons_of_mem _ (List.mem_cons_of_mem _ hg))))
      · exact hopen s hs (Bool.eq_false_iff.2 hclosed) hc hadmitted
    · have hidle := Stage.step_idle t s.pen (Bool.eq_false_iff.2 hc)
      rw [Stage.drawn_cons t read s hidle]
      cases c with
      | close =>
        -- neither side draws anything yet
        rw [Stage.expected_close t read] at hadmitted ⊢
        exact ih _ (h.close hs) hadmitted
      | moveTo f target =>
        -- both sides close the old sub-path before they begin the new one
        rw [Stage.expected_move t read] at hadmitted ⊢
        have hclose := h.closing hs (hadmitted _ List.mem_cons_self)
        obtain ⟨hmove, hnext⟩ := h.move hs (hadmitted _ (List.mem_cons_of_mem _ List.mem_cons_self))
        exact .cons hclose (.cons hmove (ih _ hnext fun g hg =>
          hadmitted g (List.mem_cons_of_mem _ (List.mem_cons_of_mem _ hg))))
      | lineTo | horizontalTo | verticalTo | cubicTo | smoothCubicTo | quadTo | smoothQuadTo | arcTo =>
        exact absurd rfl hc

/-- **What a whole path draws is related to its reference.** -/
theorem outline (h : Simulates t read related admitted invariant) {f : Frame} {target : Point}
    {cs : List Command} {o : Outline} (ho : Outline.ofCommands? t (.moveTo f target :: cs) = some o)
    (hadmitted : ∀ g ∈ reference t (.moveTo f target :: cs), admitted g)
    (hstart : admitted (mapSegment t (Cursor.initial.resolve (.moveTo f target))) →
      related (.move (Stage.initial t read f target).plotter.start)
          (mapSegment t (Cursor.initial.resolve (.moveTo f target))) ∧
        invariant cs (Stage.initial t read f target)) :
    List.Forall₂ related (o.readAs read).segments (reference t (.moveTo f target :: cs)) := by
  have hreference : reference t (.moveTo f target :: cs) =
      mapSegment t (Cursor.initial.resolve (.moveTo f target)) ::
        (Stage.initial t read f target).expected t cs := rfl
  have hsegments : (o.readAs read).segments =
      .move (Stage.initial t read f target).plotter.start ::
        (Stage.initial t read f target).drawn t read cs := by
    cases ho
    rfl
  rw [hreference] at hadmitted ⊢
  rw [hsegments]
  obtain ⟨hmove, hinvariant⟩ := hstart (hadmitted _ List.mem_cons_self)
  exact .cons hmove (h.segments cs _ hinvariant fun g hg => hadmitted g (List.mem_cons_of_mem _ hg))

end Simulates

end Icon

end VectorIcon

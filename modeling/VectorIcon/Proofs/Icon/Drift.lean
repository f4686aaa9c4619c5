/-
  VectorIcon.Proofs.Icon.Drift
  ────────────────────────────────
  **HOW FAR THE PEN DRIFTS ALONG A PATH.**

  Every relative operand is resolved twice, by the reference from its cursor and
  by the reader from its pen, and the two roundings stay apart.  `Drift` counts,
  along each axis, how often that happened since the latest absolute operand.  It
  is all that the deviation of a path depends on:

      Follows                  — pen, plotter and cursor are as far apart as the
                                 drift allows
      Follows.simulates        — every command keeps them so
      Tolerance.shows_matches  — a path whose drifts are in the limit matches its
                                 reference

  A control point which a smooth curve reflects is as far off as the point and the
  pen together, so each reflection counts once more.  After any other curve the
  control point is an operand, and an absolute one starts anew.

  A tolerance whose bounds are zero makes the match an equality; then every drift
  is in the limit.
-/
import VectorIcon.Proofs.Icon.Layout
import VectorIcon.Proofs.Icon.Tolerance

namespace VectorIcon

/-- The points of a segment satisfy a predicate, the radii of an arc one of their
    own. -/
def Segment.All (point radius : Scalar → Prop) : Segment → Prop
  | .move p | .line p | .close p => p.All point
  | .quad c p => c.All point ∧ p.All point
  | .cubic b c p => b.All point ∧ c.All point ∧ p.All point
  | .arc s p => s.radii.All radius ∧ p.All point

theorem Segment.All.imp {P Q R S : Scalar → Prop} (h : ∀ x, P x → Q x) (hradius : ∀ x, R x → S x)
    {s : Segment} (hs : s.All P R) : s.All Q S := by
  cases s with
  | move | line | close => exact Point.All.imp h hs
  | quad => exact ⟨hs.1.imp h, hs.2.imp h⟩
  | cubic => exact ⟨hs.1.imp h, hs.2.1.imp h, hs.2.2.imp h⟩
  | arc => exact ⟨hs.1.imp hradius, hs.2.imp h⟩

instance Segment.decidableAll {P R : Scalar → Prop} [DecidablePred P] [DecidablePred R] :
    (s : Segment) → Decidable (s.All P R)
  | .move p | .line p | .close p => inferInstanceAs (Decidable (p.All P))
  | .quad c p => inferInstanceAs (Decidable (c.All P ∧ p.All P))
  | .cubic b c p => inferInstanceAs (Decidable (b.All P ∧ c.All P ∧ p.All P))
  | .arc s p => inferInstanceAs (Decidable (s.radii.All R ∧ p.All P))

namespace Icon

/-! ## §1. Counting. -/

/-- How many relative operands stand between a path and its latest absolute
    ones, along one axis. -/
structure Drift where
  /-- Those of the current point. -/
  position : ℕ
  /-- Those of the start of the sub-path. -/
  start : ℕ
  /-- The family of the latest curve, and what its control point has besides. -/
  control : Option (CurveFamily × ℕ)

namespace Drift

/-- No drift. -/
def zero : Drift := ⟨0, 0, none⟩

/-- What the control point has besides which a smooth curve of the family
    reflects. -/
def gap? (d : Drift) (family : CurveFamily) : Option ℕ :=
  d.control.bind fun c => if c.1 = family then some c.2 else none

/-- The drift after a command.  A line along the other axis leaves the coordinate
    where it is. -/
def step (a : Axis) (d : Drift) : Command → Drift
  | .moveTo f _ => ⟨Tolerance.count f d.position, Tolerance.count f d.position, none⟩
  | .lineTo f _ | .arcTo f _ _ => ⟨Tolerance.count f d.position, d.start, none⟩
  | .horizontalTo f _ =>
    ⟨if a = .horizontal then Tolerance.count f d.position else d.position, d.start, none⟩
  | .verticalTo f _ =>
    ⟨if a = .vertical then Tolerance.count f d.position else d.position, d.start, none⟩
  | .quadTo f _ _ => ⟨Tolerance.count f d.position, d.start, some (.quad, Tolerance.curveGap f)⟩
  | .cubicTo f _ _ _ | .smoothCubicTo f _ _ =>
    ⟨Tolerance.count f d.position, d.start, some (.cubic, Tolerance.curveGap f)⟩
  | .smoothQuadTo f _ =>
    ⟨Tolerance.count f d.position, d.start,
      some (.quad, Tolerance.smoothGap f d.position ((d.gap? .quad).getD 0))⟩
  | .close => ⟨d.start, d.start, none⟩

theorem gap?_eq {d : Drift} {family : CurveFamily} {gap : ℕ} (h : d.control = some (family, gap)) :
    d.gap? family = some gap := by
  unfold gap?
  rw [h]
  exact if_pos rfl

/-- How many a control point has which a smooth curve of the family reflects. -/
def reflected (d : Drift) (family : CurveFamily) : ℕ :=
  (d.gap? family).elim 0 fun gap => d.position + gap + 1

/-- How many the control point has which a command implies. -/
def implied (d : Drift) : Command → ℕ
  | .smoothQuadTo _ _ => d.reflected .quad
  | .smoothCubicTo _ _ _ => d.reflected .cubic
  | _ => 0

/-- How many the points of the commands have, one command after the other. -/
def counts (a : Axis) : Drift → List Command → List ℕ
  | _, [] => []
  | d, c :: cs => d.implied c :: (d.step a c).position :: counts a (d.step a c) cs

/-- Every point along the commands is in the limit. -/
def Within (limit : ℕ → Prop) (a : Axis) (d : Drift) (cs : List Command) : Prop :=
  ∀ n ∈ d.counts a cs, limit n

namespace Within

variable {limit : ℕ → Prop} {a : Axis} {d : Drift} {c : Command} {cs : List Command}

theorem implied (h : d.Within limit a (c :: cs)) : limit (d.implied c) := h _ List.mem_cons_self

theorem position (h : d.Within limit a (c :: cs)) : limit (d.step a c).position :=
  h _ (List.mem_cons_of_mem _ List.mem_cons_self)

theorem tail (h : d.Within limit a (c :: cs)) : (d.step a c).Within limit a cs :=
  fun n hn => h n (List.mem_cons_of_mem _ (List.mem_cons_of_mem _ hn))

end Within

end Drift

/-! ## §2. Following the reference. -/

namespace Tolerance

/-- Segments which are close as far as the tolerance asks for. -/
def Matches (T : Tolerance) : Segment → Segment → Prop :=
  Segment.Matches (Point.Both T.close) T.turned

/-- The operands of a command are as the tolerance presupposes. -/
def Admits (T : Tolerance) (c : Command) : Prop := c.All (fun v => T.number v.value) T.angle

/-- A segment of the reference is as the tolerance presupposes. -/
def Inside (T : Tolerance) (s : Segment) : Prop :=
  s.All (Scalar.Holds T.inside) (Scalar.Holds T.radius)

end Tolerance

/-- Pen, plotter and cursor are as far apart as the drift allows. -/
structure Follows (T : Tolerance) (t : Transform) (d : Axis → Drift) (s : Stage) : Prop where
  tracks : Tracks s.pen s.plotter
  position : ∀ a, T.Near t a (d a).position (s.pen.position.along a) (s.cursor.position.along a)
  start : ∀ a, T.Near t a (d a).start (s.pen.start.along a) (s.cursor.start.along a)
  control : Option.Rel
    (fun C w => C.1 = w.1 ∧ ∀ a, ∃ gap, (d a).control = some (C.1, gap) ∧
      T.Guides t a gap (s.pen.position.along a) (s.cursor.position.along a) (C.2.along a) (w.2.along a))
    (s.plotter.settle s.pen.closed).control s.cursor.control
  /-- Nothing was drawn since a close. -/
  closed : s.pen.closed = true →
    (∀ a, (d a).position = (d a).start) ∧ s.cursor.position = s.cursor.start ∧ s.cursor.control = none

namespace Follows

variable {T : Tolerance} {t : Transform} {d : Axis → Drift} {s : Stage}

/-- Pen and cursor know curves of the same family. -/
theorem family (h : Follows T t d s) : s.pen.family = s.cursor.control.map Prod.fst := by
  have hcontrol := h.control
  rw [← h.tracks.family]
  generalize (s.plotter.settle s.pen.closed).control = C at hcontrol
  generalize s.cursor.control = w at hcontrol
  cases hcontrol with
  | none => rfl
  | some hw => exact congrArg some hw.1

/-- The plotter draws an operand where the pen arrives. -/
theorem point (h : Follows T t d s) (hopen : s.pen.closed = false) (g : Frame) (o : Operand) :
    s.plotter.point g ((o.inFrame g).map quantizeCoordinate) = s.pen.arrival g o :=
  Tracks.point_arrival (h.tracks.position_open hopen) g o

/-- What lands along both axes is close to the reference. -/
theorem close_of_lands {P q : Point} (h : ∀ a, T.Lands t a (P.along a) (q.along a)) :
    P.Both T.close (t.apply q) := by
  refine .of_along fun a => ?_
  rw [Transform.apply_along]
  exact (h a).close

/-- A point which the tolerance admits, along an axis. -/
theorem inside_along {q : Point} (h : (t.apply q).All (Scalar.Holds T.inside)) (a : Axis) :
    (t.image a (q.along a)).Holds T.inside := by
  rw [← Transform.apply_along]
  exact h.along a

/-! ### Operands. -/

/-- **An operand of the pen** against that of the cursor, along both axes. -/
theorem operand (h : Follows T t d s) (hT : T.Bounds t) {f : Frame} {p : Point} (g : Frame)
    (hp : p.All fun v => T.number v.value)
    (hinside : (t.apply (s.cursor.point f p)).All (Scalar.Holds T.inside))
    (hlimit : ∀ a, T.limit a (Tolerance.count f (d a).position)) (a : Axis) :
    T.Lands t a ((s.pen.arrival g (s.pen.operand t f p)).along a) ((s.cursor.point f p).along a) ∧
      |t.deviation a ((s.pen.arrival g (s.pen.operand t f p)).along a) ((s.cursor.point f p).along a) -
        Tolerance.base f (t.deviation a (s.pen.position.along a) (s.cursor.position.along a))| ≤
          T.slack a f := by
  have hcoordinate := inside_along hinside a
  rw [Cursor.point_along] at hcoordinate ⊢
  rw [Pen.arrival_along]
  have hoperand := (h.position a).operand hT g (hp.along a) hcoordinate (hlimit a)
    (s.pen.operand_along t f p a)
  exact hoperand

/-- A control point which a smooth curve of the family implies, along both axes. -/
def Implied (T : Tolerance) (t : Transform) (d : Axis → Drift) (s : Stage) (family : CurveFamily)
    (C w : Point) : Prop :=
  ∀ a, T.Implied t a (((d a).gap? family).getD 0) (s.pen.position.along a) (s.cursor.position.along a)
    (C.along a) (w.along a)

/-- The control point which a smooth curve of the family reflects, on both
    sides. -/
theorem smooth (h : Follows T t d s) (hT : T.Bounds t) (hopen : s.pen.closed = false)
    {family : CurveFamily} (hfamily : s.pen.family = some family)
    (hinside : (t.apply (s.cursor.smoothControl family)).All (Scalar.Holds T.inside))
    (hlimit : ∀ a, T.limit a ((d a).reflected family)) :
    Implied T t d s family (s.plotter.smoothControl family) (s.cursor.smoothControl family) := by
  intro a
  have hcontrol := h.control
  have hplace := h.tracks.position_open hopen
  -- both sides know a control point, and its family is the one asked for
  have hknown := h.family
  rw [hopen] at hcontrol
  change Option.Rel _ s.plotter.control s.cursor.control at hcontrol
  rw [hfamily] at hknown
  unfold Plotter.smoothControl
  unfold Cursor.smoothControl Cursor.previousControl? at hinside ⊢
  rw [hplace]
  generalize s.plotter.control = C at hcontrol
  generalize s.cursor.control = w at hcontrol hknown hinside
  cases hcontrol with
  | none => cases hknown
  | @some C w hw =>
    obtain ⟨_, C⟩ := C
    obtain ⟨_, w⟩ := w
    obtain ⟨hsame, hguides⟩ := hw
    obtain rfl : _ = family := (Option.some.inj hknown).symm
    simp only at hsame hguides hinside ⊢
    subst hsame
    rw [if_pos rfl]
    simp only [if_true] at hinside ⊢
    have hreflected := inside_along hinside a
    rw [Point.reflect_along] at hreflected ⊢
    rw [Point.reflect_along]
    obtain ⟨gap, hgap, hguide⟩ := hguides a
    have hcount := hlimit a
    unfold Drift.reflected at hcount
    rw [Drift.gap?_eq hgap] at hcount ⊢
    exact hguide.reflect (h.position a) hT hreflected hcount

/-- Without such a control point the cursor takes its own place. -/
theorem smoothControl_position (h : Follows T t d s) {family : CurveFamily}
    (hfamily : ¬ s.pen.family = some family) : s.cursor.smoothControl family = s.cursor.position := by
  rw [h.family] at hfamily
  unfold Cursor.smoothControl Cursor.previousControl?
  generalize s.cursor.control = w at hfamily
  match w, hfamily with
  | none, _ => rfl
  | some (f, w), hfamily =>
    have hne : ¬ f = family := fun heq => hfamily (congrArg some heq)
    simp only
    rw [if_neg hne]

/-- The pen's own place, written as the control point which is missing. -/
theorem here (h : Follows T t d s) (hT : T.Bounds t) {family : CurveFamily}
    (hfamily : ¬ s.pen.family = some family) (g : Frame)
    (hinside : (t.apply (s.cursor.smoothControl family)).All (Scalar.Holds T.inside)) :
    Implied T t d s family (s.pen.arrival g s.pen.here) (s.cursor.smoothControl family) := by
  intro a
  rw [h.smoothControl_position hfamily] at hinside ⊢
  rw [Pen.here_along]
  exact (h.position a).here hT g (inside_along hinside a)

/-! ### Drawing. -/

/-- What follows the reference after a command which draws. -/
theorem drawn (h : Follows T t d s) (hopen : s.pen.closed = false) {c : Command}
    (hc : Pen.needsOpen c = true) (e : Axis → Drift) (hstart : ∀ a, (e a).start = (d a).start)
    (hposition : ∀ a, T.Near t a (e a).position ((s.pen.draw t c).2.position.along a)
      ((s.cursor.step c).2.position.along a))
    (hcontrol : Option.Rel
      (fun C w => C.1 = w.1 ∧ ∀ a, ∃ gap, (e a).control = some (C.1, gap) ∧
        T.Guides t a gap ((s.pen.draw t c).2.position.along a)
          ((s.cursor.step c).2.position.along a) (C.2.along a) (w.2.along a))
      (s.draw t quantizeCoordinate c).plotter.control (s.cursor.step c).2.control) :
    Follows T t e (s.draw t quantizeCoordinate c) := by
  obtain ⟨hpen, hclosed⟩ := s.pen.draw_keeps t hc
  refine ⟨h.tracks.draw hopen hc, hposition, fun a => ?_, ?_, fun hnow => ?_⟩
  · show T.Near t a (e a).start ((s.pen.draw t c).2.start.along a) ((s.cursor.step c).2.start.along a)
    have hcursor : (s.cursor.step c).2.start = s.cursor.start :=
      Stage.draw_start t quantizeCoordinate s hc
    rw [hstart, hpen, hcursor]
    exact h.start a
  · show Option.Rel _ (Plotter.settle _ (s.pen.draw t c).2.closed).control _
    rw [hclosed, hopen]
    exact hcontrol
  · have hnow : (s.pen.draw t c).2.closed = true := hnow
    rw [hclosed, hopen] at hnow
    cases hnow

/-- A command draws its reference, and leaves what follows the reference. -/
def Draws (T : Tolerance) (t : Transform) (d : Axis → Drift) (s : Stage) (c : Command) : Prop :=
  List.Forall₂ T.Matches
      (s.plotter.segments ((s.pen.draw t c).1.map (Instruction.readAs quantizeCoordinate)))
      [mapSegment t (s.cursor.resolve c)] ∧
    Follows T t (fun a => (d a).step a c) (s.draw t quantizeCoordinate c)

section Drawing

variable (h : Follows T t d s) (hT : T.Bounds t) (hopen : s.pen.closed = false)
include h hT hopen

/-- **A line along an axis** is drawn close to the reference, and the pen is near
    it. -/
theorem axisLine {f : Frame} {v : Scalar} (a : Axis) (hv : T.number v.value)
    (hinside : (t.image a (Cursor.coordinate f (s.cursor.position.along a) v)).Holds T.inside)
    (hlimit : T.limit a (Tolerance.count f (d a).position)) :
    T.close (Plotter.coordinate (s.pen.alongAxis t f a v).1 (s.plotter.position.along a)
        (quantizeCoordinate (s.pen.alongAxis t f a v).2.1))
      (t.image a (Cursor.coordinate f (s.cursor.position.along a) v)) ∧
    T.Near t a (Tolerance.count f (d a).position) (s.pen.alongAxis t f a v).2.2
      (Cursor.coordinate f (s.cursor.position.along a) v) := by
  rw [h.tracks.position_open hopen]
  unfold Pen.alongAxis
  rw [Tracks.coordinate_axisLine, Pen.axisLine_arrival]
  obtain ⟨hlands, hslack⟩ := (h.position a).operand hT
    (Pen.axisLine (s.pen.position.along a)
      (Pen.axisForms f (s.pen.position.along a) (t.image a v) (t.scale * v))).1 hv hinside hlimit rfl
  exact ⟨hlands.close, (h.position a).of_slack hlands hslack hlimit⟩

theorem draw_line {f : Frame} {p : Point} (hc : T.Admits (.lineTo f p))
    (hlimit : ∀ a, T.limit a ((d a).step a (.lineTo f p)).position)
    (hinside : T.Inside (mapSegment t (s.cursor.resolve (.lineTo f p)))) :
    Draws T t d s (.lineTo f p) := by
  have htarget := h.operand hT (Operand.shorter [s.pen.operand t f p]) hc hinside hlimit
  refine ⟨.cons (.line ?_) .nil, h.drawn hopen rfl _ (fun _ => rfl) (fun a => ?_) .none⟩
  · rw [h.point hopen]
    exact close_of_lands fun a => (htarget a).1
  · exact (h.position a).of_slack (htarget a).1 (htarget a).2 (hlimit a)

theorem draw_horizontal {f : Frame} {x : Scalar} (hc : T.Admits (.horizontalTo f x))
    (hlimit : ∀ a, T.limit a ((d a).step a (.horizontalTo f x)).position)
    (hinside : T.Inside (mapSegment t (s.cursor.resolve (.horizontalTo f x)))) :
    Draws T t d s (.horizontalTo f x) := by
  have hplace := h.tracks.position_open hopen
  obtain ⟨hclose, hnear⟩ := h.axisLine hT hopen .horizontal hc hinside.1 (hlimit .horizontal)
  -- the other coordinate stays where it is, on both sides
  have hother := h.position .vertical
  refine ⟨.cons (.line ⟨?_, ?_⟩) .nil, h.drawn hopen rfl _ (fun _ => rfl) (fun a => ?_) .none⟩
  · exact hclose
  · show T.close s.plotter.position.y _
    rw [hplace]
    exact (hother.lands hT hinside.2).close
  · cases a with
    | horizontal => exact hnear
    | vertical => exact hother

theorem draw_vertical {f : Frame} {y : Scalar} (hc : T.Admits (.verticalTo f y))
    (hlimit : ∀ a, T.limit a ((d a).step a (.verticalTo f y)).position)
    (hinside : T.Inside (mapSegment t (s.cursor.resolve (.verticalTo f y)))) :
    Draws T t d s (.verticalTo f y) := by
  have hplace := h.tracks.position_open hopen
  obtain ⟨hclose, hnear⟩ := h.axisLine hT hopen .vertical hc hinside.2 (hlimit .vertical)
  have hother := h.position .horizontal
  refine ⟨.cons (.line ⟨?_, ?_⟩) .nil, h.drawn hopen rfl _ (fun _ => rfl) (fun a => ?_) .none⟩
  · show T.close s.plotter.position.x _
    rw [hplace]
    exact (hother.lands hT hinside.1).close
  · exact hclose
  · cases a with
    | horizontal => exact hother
    | vertical => exact hnear

theorem draw_quad {f : Frame} {c p : Point} (hc : T.Admits (.quadTo f c p))
    (hlimit : ∀ a, T.limit a ((d a).step a (.quadTo f c p)).position)
    (hinside : T.Inside (mapSegment t (s.cursor.resolve (.quadTo f c p)))) :
    Draws T t d s (.quadTo f c p) := by
  have hcontrol := h.operand hT (Operand.shorter [s.pen.operand t f c, s.pen.operand t f p]) hc.1
    hinside.1 hlimit
  have htarget := h.operand hT (Operand.shorter [s.pen.operand t f c, s.pen.operand t f p]) hc.2
    hinside.2 hlimit
  refine ⟨.cons (.quad ?_ ?_) .nil,
    h.drawn hopen rfl _ (fun _ => rfl) (fun a => ?_) (.some ⟨rfl, fun a => ⟨_, rfl, ?_⟩⟩)⟩
  · rw [h.point hopen]
    exact close_of_lands fun a => (hcontrol a).1
  · rw [h.point hopen]
    exact close_of_lands fun a => (htarget a).1
  · exact (h.position a).of_slack (htarget a).1 (htarget a).2 (hlimit a)
  · rw [h.point hopen]
    exact .of_operands hT (hcontrol a).1 (hcontrol a).2 (htarget a).2

theorem draw_cubic {f : Frame} {b c p : Point} (hc : T.Admits (.cubicTo f b c p))
    (hlimit : ∀ a, T.limit a ((d a).step a (.cubicTo f b c p)).position)
    (hinside : T.Inside (mapSegment t (s.cursor.resolve (.cubicTo f b c p)))) :
    Draws T t d s (.cubicTo f b c p) := by
  have hoperand {q : Point} := h.operand (f := f) (p := q) hT
    (Operand.shorter [s.pen.operand t f b, s.pen.operand t f c, s.pen.operand t f p])
  have hfirst := hoperand hc.1 hinside.1 hlimit
  have hsecond := hoperand hc.2.1 hinside.2.1 hlimit
  have htarget := hoperand hc.2.2 hinside.2.2 hlimit
  refine ⟨.cons (.cubic ?_ ?_ ?_) .nil,
    h.drawn hopen rfl _ (fun _ => rfl) (fun a => ?_) (.some ⟨rfl, fun a => ⟨_, rfl, ?_⟩⟩)⟩
  · rw [h.point hopen]
    exact close_of_lands fun a => (hfirst a).1
  · rw [h.point hopen]
    exact close_of_lands fun a => (hsecond a).1
  · rw [h.point hopen]
    exact close_of_lands fun a => (htarget a).1
  · exact (h.position a).of_slack (htarget a).1 (htarget a).2 (hlimit a)
  · rw [h.point hopen]
    exact .of_operands hT (hsecond a).1 (hsecond a).2 (htarget a).2

theorem draw_arc {f : Frame} {shape : ArcShape} {p : Point} (hc : T.Admits (.arcTo f shape p))
    (hlimit : ∀ a, T.limit a ((d a).step a (.arcTo f shape p)).position)
    (hinside : T.Inside (mapSegment t (s.cursor.resolve (.arcTo f shape p)))) :
    Draws T t d s (.arcTo f shape p) := by
  have htarget := h.operand hT (Operand.shorter [s.pen.operand t f p]) hc.2.2 hinside.2 hlimit
  refine ⟨.cons (.arc ⟨?_, ?_⟩ ?_ ?_) .nil, h.drawn hopen rfl _ (fun _ => rfl) (fun a => ?_) .none⟩
  · exact hT.radii hc.1.1 hinside.1.1
  · exact hT.radii hc.1.2 hinside.1.2
  · exact hT.rotation hc.2.1
  · rw [h.point hopen]
    exact close_of_lands fun a => (htarget a).1
  · exact (h.position a).of_slack (htarget a).1 (htarget a).2 (hlimit a)

/-! ### Smooth curves. -/

/-- The control point which a smooth curve implies lands near its reference. -/
theorem implied {family : CurveFamily} {g : Frame} {C : Point}
    (hC : s.pen.Implies s.plotter family g C)
    (hinside : (t.apply (s.cursor.smoothControl family)).All (Scalar.Holds T.inside))
    (hreflected : ∀ a, T.limit a ((d a).reflected family)) :
    Implied T t d s family C (s.cursor.smoothControl family) := by
  cases hC with
  | reflected hfamily => exact h.smooth hT hopen hfamily hinside hreflected
  | here hfamily => exact h.here hT hfamily g hinside

theorem draw_smoothQuad {f : Frame} {p : Point} (hc : T.Admits (.smoothQuadTo f p))
    (hreflected : ∀ a, T.limit a ((d a).reflected .quad))
    (hlimit : ∀ a, T.limit a ((d a).step a (.smoothQuadTo f p)).position)
    (hinside : T.Inside (mapSegment t (s.cursor.resolve (.smoothQuadTo f p)))) :
    Draws T t d s (.smoothQuadTo f p) := by
  obtain ⟨g, C, hC, hpen, hsegments, hplotter⟩ := h.tracks.smoothQuad (t := t) hopen f p
  have hcontrol := h.implied hT hopen hC hinside.1 hreflected
  have htarget := h.operand hT g hc hinside.2 hlimit
  refine ⟨?_, h.drawn hopen rfl _ (fun _ => rfl) (fun a => ?_) ?_⟩
  · rw [hsegments]
    exact .cons (.quad (close_of_lands fun a => (hcontrol a).lands)
      (close_of_lands fun a => (htarget a).1)) .nil
  · rw [hpen]
    exact (h.position a).of_slack (htarget a).1 (htarget a).2 (hlimit a)
  · unfold Stage.draw
    rw [hplotter, hpen]
    exact .some ⟨rfl, fun a => ⟨_, rfl, .of_smooth (h.position a) hT (hcontrol a) (htarget a).2⟩⟩

theorem draw_smoothCubic {f : Frame} {c p : Point} (hc : T.Admits (.smoothCubicTo f c p))
    (hreflected : ∀ a, T.limit a ((d a).reflected .cubic))
    (hlimit : ∀ a, T.limit a ((d a).step a (.smoothCubicTo f c p)).position)
    (hinside : T.Inside (mapSegment t (s.cursor.resolve (.smoothCubicTo f c p)))) :
    Draws T t d s (.smoothCubicTo f c p) := by
  -- the first control point is implied, the other two points are operands
  obtain ⟨g, C, hC, hpen, hsegments, hplotter⟩ := h.tracks.smoothCubic (t := t) hopen f c p
  have hcontrol := h.implied hT hopen hC hinside.1 hreflected
  have hsecond := h.operand hT g hc.1 hinside.2.1 hlimit
  have htarget := h.operand hT g hc.2 hinside.2.2 hlimit
  refine ⟨?_, h.drawn hopen rfl _ (fun _ => rfl) (fun a => ?_) ?_⟩
  · rw [hsegments]
    exact .cons (.cubic (close_of_lands fun a => (hcontrol a).lands)
      (close_of_lands fun a => (hsecond a).1) (close_of_lands fun a => (htarget a).1)) .nil
  · rw [hpen]
    exact (h.position a).of_slack (htarget a).1 (htarget a).2 (hlimit a)
  · unfold Stage.draw
    rw [hplotter, hpen]
    exact .some ⟨rfl, fun a => ⟨_, rfl, .of_operands hT (hsecond a).1 (hsecond a).2 (htarget a).2⟩⟩

/-- **A command on an open sub-path** draws its reference. -/
theorem draw {c : Command} (hdraws : Pen.needsOpen c = true) (hc : T.Admits c)
    (himplied : ∀ a, T.limit a ((d a).implied c)) (hlimit : ∀ a, T.limit a ((d a).step a c).position)
    (hinside : T.Inside (mapSegment t (s.cursor.resolve c))) : Draws T t d s c := by
  cases c with
  | moveTo | close => cases hdraws
  | lineTo f p => exact h.draw_line hT hopen hc hlimit hinside
  | horizontalTo f x => exact h.draw_horizontal hT hopen hc hlimit hinside
  | verticalTo f y => exact h.draw_vertical hT hopen hc hlimit hinside
  | cubicTo f b c p => exact h.draw_cubic hT hopen hc hlimit hinside
  | smoothCubicTo f c p => exact h.draw_smoothCubic hT hopen hc himplied hlimit hinside
  | quadTo f c p => exact h.draw_quad hT hopen hc hlimit hinside
  | smoothQuadTo f p => exact h.draw_smoothQuad hT hopen hc himplied hlimit hinside
  | arcTo f shape p => exact h.draw_arc hT hopen hc hlimit hinside

end Drawing

/-! ### Sub-paths. -/

/-- The start of the sub-path is drawn close to the reference. -/
theorem start_close (h : Follows T t d s) (hT : T.Bounds t)
    (hinside : (t.apply s.cursor.start).All (Scalar.Holds T.inside)) :
    s.plotter.start.Both T.close (t.apply s.cursor.start) := by
  rw [h.tracks.start]
  exact close_of_lands fun a => (h.start a).lands hT (inside_along hinside a)

/-- A close leads back to the start. -/
theorem close (h : Follows T t d s) :
    Follows T t (fun a => (d a).step a .close) (s.draw t quantizeCoordinate .close) :=
  ⟨Tracks.close (t := t) h.tracks, h.start, h.start, .none, fun _ => ⟨fun _ => rfl, rfl, rfl⟩⟩

/-- **A move** starts a sub-path near its reference. -/
theorem move (h : Follows T t d s) (hT : T.Bounds t) {f : Frame} {p : Point}
    (hc : T.Admits (.moveTo f p)) (hlimit : ∀ a, T.limit a ((d a).step a (.moveTo f p)).position)
    (hinside : T.Inside (mapSegment t (s.cursor.resolve (.moveTo f p)))) :
    Follows T t (fun a => (d a).step a (.moveTo f p)) (s.draw t quantizeCoordinate (.moveTo f p)) := by
  have hnumbers : p.All fun v => T.number v.value := hc
  obtain ⟨g, harrival⟩ := s.pen.closeMove_along (s.pen.operand t f p).absolute
  have hnear (a : Axis) : T.Near t a (Tolerance.count f (d a).position)
      ((s.pen.draw t (.moveTo f p)).2.position.along a) ((s.cursor.point f p).along a) := by
    have hcoordinate := inside_along hinside a
    have hforms := congrArg Prod.fst (s.pen.operand_along t f p a)
    rw [Cursor.point_along] at hcoordinate ⊢
    have hmoved := (h.position a).moved hT g (hnumbers.along a) hcoordinate (hlimit a)
      (h.start a).placed hforms
    rw [← harrival a] at hmoved
    exact hmoved
  exact ⟨h.tracks.move f p, hnear, hnear, .none, fun hnow => by cases hnow⟩

/-- **Drawing on a closed sub-path** starts a new one exactly where the pen is. -/
theorem restart (h : Follows T t d s) (hclosed : s.pen.closed = true) :
    Follows T t d (s.restart quantizeCoordinate) := by
  obtain ⟨hdrift, hposition, hcontrol⟩ := h.closed hclosed
  have hnear (a : Axis) : T.Near t a (d a).start
      ((s.pen.closeMove s.pen.start).2.position.along a) (s.cursor.start.along a) := by
    obtain ⟨⟨hfinite, hplaced⟩, hsource, hlimit, hdeviation⟩ := h.start a
    -- the new sub-path begins on the start of the old one, to the last bit of its value
    have hsame := Pen.closeMove_start s.pen (fun a => (h.start a).placed.1) a
    refine ⟨⟨hsame.isFinite.trans hfinite, ?_⟩, hsource, hlimit, ?_⟩
    · rw [hsame.value]
      exact hplaced
    · unfold Transform.deviation at hdeviation ⊢
      rw [hsame.value]
      exact hdeviation
  refine ⟨Tracks.closeMove h.tracks.start s.pen.start, fun a => ?_, hnear, ?_, fun hnow => by cases hnow⟩
  · show T.Near t a (d a).position _ (s.cursor.position.along a)
    rw [hdrift, hposition]
    exact hnear a
  · show Option.Rel _ none s.cursor.control
    rw [hcontrol]
    exact .none

end Follows

/-! ## §3. Whole paths. -/

/-- **Every command keeps pen, plotter and cursor together**, as far as the drift
    allows. -/
theorem Follows.simulates {T : Tolerance} {t : Transform} (hT : T.Bounds t) :
    Simulates t quantizeCoordinate T.Matches T.Inside fun cs s =>
      ∃ d, Follows T t d s ∧ (∀ c ∈ cs, T.Admits c) ∧ ∀ a, (d a).Within (T.limit a) a cs where
  closing := by
    rintro cs s ⟨d, h, -, -⟩ hinside
    exact .close (h.start_close hT hinside)
  close := by
    rintro cs s ⟨d, h, hadmits, hlimit⟩
    exact ⟨_, h.close, fun c hc => hadmits c (List.mem_cons_of_mem _ hc), fun a => (hlimit a).tail⟩
  move := by
    rintro f target cs s ⟨d, h, hadmits, hlimit⟩ hinside
    have hmove := h.move hT (hadmits _ List.mem_cons_self) (fun a => (hlimit a).position) hinside
    exact ⟨.move (hmove.start_close hT hinside), _, hmove,
      fun c hc => hadmits c (List.mem_cons_of_mem _ hc), fun a => (hlimit a).tail⟩
  restart := by
    rintro c cs s ⟨d, h, hadmits, hlimit⟩ hclosed - hinside
    exact ⟨.move ((h.restart hclosed).start_close hT hinside), d, h.restart hclosed, hadmits, hlimit⟩
  draw := by
    rintro c cs s ⟨d, h, hadmits, hlimit⟩ hopen hdraws hinside
    obtain ⟨hmatches, hnext⟩ := h.draw hT hopen hdraws (hadmits c List.mem_cons_self)
      (fun a => (hlimit a).implied) (fun a => (hlimit a).position) hinside
    exact ⟨hmatches, _, hnext, fun c hc => hadmits c (List.mem_cons_of_mem _ hc),
      fun a => (hlimit a).tail⟩

/-- Before the first move the cursor is at the origin, which hardly counts. -/
theorem coordinate_origin {f : Frame} {v : Scalar} (h : (Cursor.coordinate f 0.0 v).isFinite = true) :
    v.isFinite = true ∧ v.Agrees (Cursor.coordinate f 0.0 v) := by
  cases f with
  | absolute => exact ⟨h, .refl v⟩
  | relative =>
    have hagrees : (0.0 + v : Scalar).Agrees v := by
      rw [Scalar.add_comm]
      exact .add_zero Scalar.finite_zero.1 Scalar.finite_zero.2
    exact ⟨(Scalar.isFinite_of_add h).2, hagrees.symm⟩

/-- **The first move** starts a path near its reference. -/
theorem Follows.initial {T : Tolerance} {t : Transform} (hT : T.Bounds t) {f : Frame} {p : Point}
    (hc : T.Admits (.moveTo f p))
    (hinside : T.Inside (mapSegment t (Cursor.initial.resolve (.moveTo f p)))) :
    Follows T t (fun _ => .zero) (.initial t quantizeCoordinate f p) := by
  have hnumbers : p.All fun v => T.number v.value := hc
  have hnear (a : Axis) : T.Near t a 0 ((quantize (t.apply p)).along a)
      ((Cursor.initial.point f p).along a) := by
    have hcoordinate := Follows.inside_along hinside a
    have horigin : Cursor.initial.position.along a = 0.0 := by cases a <;> rfl
    rw [Cursor.point_along, horigin] at hcoordinate ⊢
    obtain ⟨himage, hvalue⟩ := hcoordinate
    obtain ⟨hfinite, hagrees⟩ :=
      coordinate_origin (Scalar.isFinite_of_sub (Scalar.isFinite_of_mul himage).2).1
    -- the pen maps the operand itself
    have hsame : (t.image a (p.along a)).Agrees (t.image a (Cursor.coordinate f 0.0 (p.along a))) :=
      (Scalar.Agrees.refl _).mul (hagrees.sub (.refl _))
    have hoperand : (t.image a (p.along a)).Holds T.inside :=
      ⟨hsame.isFinite.trans himage, by rw [hsame.value]; exact hvalue⟩
    obtain ⟨hsource, hlanded, hdeviation⟩ : (p.along a).Holds (T.source a) ∧
        (land .absolute 0.0 (t.image a (p.along a)) (t.image a (p.along a) - 0.0)).isFinite = true ∧
        |t.deviation a (land .absolute 0.0 (t.image a (p.along a)) (t.image a (p.along a) - 0.0))
          (p.along a)| ≤ T.landing :=
      hT.absolute (hnumbers.along a) hoperand fun h => by cases h
    have harrival : (quantize (t.apply p)).along a =
        land .absolute 0.0 (t.image a (p.along a)) (t.image a (p.along a) - 0.0) := by
      cases a <;> rfl
    rw [harrival]
    have hzero : |t.deviation a (land .absolute 0.0 (t.image a (p.along a))
        (t.image a (p.along a) - 0.0)) (Cursor.coordinate f 0.0 (p.along a))| ≤
          T.landing + (0 : ℕ) * T.offset a := by
      rw [Nat.cast_zero, zero_mul, add_zero]
      unfold Transform.deviation Transform.exact at hdeviation ⊢
      rwa [hagrees.value] at hdeviation
    have hplaced := hT.lands hlanded (v := Cursor.coordinate f 0.0 (p.along a))
      ⟨hagrees.isFinite ▸ hsource.1, hagrees.value ▸ hsource.2⟩ ⟨himage, hvalue⟩ (hT.limit_zero a)
      (hT.room le_rfl hzero)
    exact ⟨hplaced.placed, hplaced.source, hT.limit_zero a, hzero⟩
  exact ⟨Tracks.initial _, hnear, hnear, .none, fun hnow => by cases hnow⟩

/-- **A path matches its reference**, if its operands and its reference are as the
    tolerance presupposes and its drifts are in the limit. -/
theorem Tolerance.outline_matches {T : Tolerance} {t : Transform} (hT : T.Bounds t)
    {cs : List Command} {o : Outline} (ho : Outline.ofCommands? t cs = some o)
    (hadmits : ∀ c ∈ cs, T.Admits c) (hlimit : ∀ a, Drift.zero.Within (T.limit a) a cs.tail)
    (hinside : ∀ g ∈ reference t cs, T.Inside g) :
    List.Forall₂ T.Matches (o.readAs quantizeCoordinate).segments (reference t cs) := by
  match cs, ho with
  | .moveTo f p :: cs, ho =>
    -- the commands which are left and their drifts are part of the invariant
    refine (Follows.simulates hT).outline ho hinside fun hfirst => ?_
    have hinitial := Follows.initial hT (hadmits _ List.mem_cons_self) hfirst
    exact ⟨.move (hinitial.start_close hT hfirst), _, hinitial,
      fun c hc => hadmits c (List.mem_cons_of_mem _ hc), hlimit⟩

/-- **A path which is shown matches its reference** just as well, since closeness
    does not tell apart numbers that agree. -/
theorem Tolerance.shows_matches {T : Tolerance} {t : Transform} (hT : T.Bounds t)
    (hclose : ∀ {a b c}, Scalar.Agrees a b → T.close b c → T.close a c)
    {cs : List Command} {painted : PaintedPath} (h : Shows t cs painted)
    (hadmits : ∀ c ∈ cs, T.Admits c) (hlimit : ∀ a, Drift.zero.Within (T.limit a) a cs.tail)
    (hinside : ∀ g ∈ reference t cs, T.Inside g) :
    List.Forall₂ T.Matches painted.segments (reference t cs) := by
  obtain ⟨o, ho, hstrokes⟩ := h
  have hagrees : painted.segments = o.recovered.segments := congrArg (List.map Stroke.segment) hstrokes
  rw [hagrees]
  refine List.forall₂_trans (fun hab hbc => ?_) o.recovered_agrees
    (T.outline_matches hT ho hadmits hlimit hinside)
  exact hab.trans (fun hp hq => ⟨hclose hp.x hq.1, hclose hp.y hq.2⟩) (fun ha hb => ha ▸ hb) hbc

end Icon

end VectorIcon

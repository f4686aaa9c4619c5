/-
  VectorIcon.Proofs.Icon.Finite
  ────────────────────────────────
  **PATHS WITHOUT INFINITIES.**

  Pen, plotter and the control point which may be reflected stay within a radius,
  and every command widens it by its share of the budget:

      Reaches                — the radius of a stage
      Reaches.simulates      — every command keeps to its share
      Shows.points_finite    — a path whose budget is in the range of single
                               precision is shown with finite points and radii
      Shows.transform_finite — a transform which is not finite spoils every path

  Rotations do not depend on where the path is, they are always finite
  (`Shows.rotations_finite`).
-/
import VectorIcon.Proofs.Icon.Angle
import VectorIcon.Proofs.Icon.Drift
import VectorIcon.Proofs.Icon.Range

namespace VectorIcon

namespace Icon

open Scalar (slack Around)
open Tolerance (base)

/-! ## §1. Staying within a radius. -/

/-- Points and radii of the segment are finite. -/
abbrev PointsFinite (g : Segment) : Prop :=
  g.All (fun x => x.isFinite = true) fun x => x.isFinite = true

/-- Pen, plotter and start of the sub-path are within a radius, and a control
    point which may be reflected is guarded by it. -/
structure Reaches (b : ℚ) (s : Stage) : Prop where
  tracks : Tracks s.pen s.plotter
  position : ∀ a, (s.pen.position.along a).Bounded b
  start : ∀ a, (s.pen.start.along a).Bounded b
  control : ∀ w ∈ (s.plotter.settle s.pen.closed).control, ∀ a,
    Guarded b (s.pen.position.along a) (w.2.along a)

namespace Reaches

variable {t : Transform} {b : ℚ} {s : Stage}

/-- The plotter draws an operand where the pen arrives. -/
theorem point (h : Reaches b s) (hopen : s.pen.closed = false) (g : Frame) (o : Operand) :
    s.plotter.point g ((o.inFrame g).map quantizeCoordinate) = s.pen.arrival g o :=
  Tracks.point_arrival (h.tracks.position_open hopen) g o

/-- A command draws finite numbers and adds its share to the radius. -/
def Draws (t : Transform) (b : ℚ) (s : Stage) (c : Command) : Prop :=
  List.Forall₂ (fun g _ => PointsFinite g)
      (s.plotter.segments ((s.pen.draw t c).1.map (Instruction.readAs quantizeCoordinate)))
      [mapSegment t (s.cursor.resolve c)] ∧
    Reaches (b + t.share c) (s.draw t quantizeCoordinate c)

/-- What follows a command which draws. -/
theorem drawn (h : Reaches b s) (hopen : s.pen.closed = false) {c : Command}
    (hc : Pen.needsOpen c = true)
    (hposition : ∀ a, ((s.pen.draw t c).2.position.along a).Bounded (b + t.share c))
    (hcontrol : ∀ w ∈ (s.draw t quantizeCoordinate c).plotter.control, ∀ a,
      Guarded (b + t.share c) ((s.pen.draw t c).2.position.along a) (w.2.along a)) :
    Reaches (b + t.share c) (s.draw t quantizeCoordinate c) := by
  obtain ⟨hpen, hclosed⟩ := s.pen.draw_keeps t hc
  refine ⟨h.tracks.draw hopen hc, hposition, fun a => ?_, ?_⟩
  · show ((s.pen.draw t c).2.start.along a).Bounded _
    rw [hpen]
    exact (h.start a).mono (le_add_of_nonneg_right (t.share_nonneg c))
  · show ∀ w ∈ (Plotter.settle _ (s.pen.draw t c).2.closed).control, _
    rw [hclosed, hopen]
    exact hcontrol

/-- Where an operand arrives is within the wider radius. -/
theorem arrived (h : Reaches b s) {c : Command} {f : Frame} {q : Point}
    (hq : ∀ a, (q.along a).Around (base f (s.pen.position.along a).value) (t.spread c)) (a : Axis) :
    (q.along a).Bounded (b + t.share c) :=
  (bounded_of_around (hq a) (h.position a)).mono (by linarith [t.spread_le_share c])

section Operands

variable {c : Command} {f : Frame} {p : Point} {v : Scalar} (h : Reaches b s) (ht : t.Finite)
  (hroom : b + t.share c ≤ 2 ^ 125)

include h ht hroom

/-- **A coordinate** lands around what it is counted from. -/
theorem lands {a : Axis} (g : Frame) (hv : t.Carries (t.carry c) v) {forms : Scalar × Scalar}
    (hforms : forms = Pen.axisForms f (s.pen.position.along a) (t.image a v) (t.scale * v)) :
    (land g (s.pen.position.along a) forms.1 forms.2).Around
      (base f (s.pen.position.along a).value) (t.spread c) := by
  have hslack := Scalar.slack_nonneg
  have hcarry := t.carry_nonneg c
  unfold Transform.share Transform.spread at hroom
  have hland := operand_around (g := g) ht (h.position a) hv hforms (by linarith)
  exact hland.mono (by unfold Transform.spread; linarith)

/-- **An operand of the pen**, along both axes. -/
theorem operand (hp : p.All (t.Carries (t.carry c))) (g : Frame) (a : Axis) :
    ((s.pen.arrival g (s.pen.operand t f p)).along a).Around (base f (s.pen.position.along a).value)
      (t.spread c) := by
  have hland := h.lands ht hroom g (hp.along a) (s.pen.operand_along t f p a)
  rw [Pen.arrival_along]
  exact hland

/-- An operand of the plotter is finite. -/
theorem point_finite (hopen : s.pen.closed = false) (hp : p.All (t.Carries (t.carry c)))
    (g : Frame) :
    (s.plotter.point g (((s.pen.operand t f p).inFrame g).map quantizeCoordinate)).All
      fun x => x.isFinite = true := by
  rw [h.point hopen]
  exact .of_along fun a => (h.operand ht hroom hp g a).1

/-- **A line along an axis** is drawn where the pen arrives. -/
theorem axisLine (hopen : s.pen.closed = false) (a : Axis) (hv : t.Carries (t.carry c) v) :
    Plotter.coordinate (s.pen.alongAxis t f a v).1 (s.plotter.position.along a)
        (quantizeCoordinate (s.pen.alongAxis t f a v).2.1) = (s.pen.alongAxis t f a v).2.2 ∧
      (s.pen.alongAxis t f a v).2.2.Bounded (b + t.share c) := by
  rw [h.tracks.position_open hopen]
  unfold Pen.alongAxis
  refine ⟨Tracks.coordinate_axisLine _ _, ?_⟩
  rw [Pen.axisLine_arrival]
  refine (bounded_of_around (h.lands ht hroom _ hv rfl) (h.position a)).mono ?_
  linarith [t.spread_le_share c]

end Operands

/-- The control point of a curve which is an operand, seen from the target. -/
theorem control_guarded (h : Reaches b s) (hopen : s.pen.closed = false) {c : Command} {f g : Frame}
    {o o' : Operand}
    (hcontrol : ∀ a, ((s.pen.arrival g o).along a).Around (base f (s.pen.position.along a).value)
      (t.spread c))
    (htarget : ∀ a, ((s.pen.arrival g o').along a).Around (base f (s.pen.position.along a).value)
      (t.spread c)) (family : CurveFamily) :
    ∀ w ∈ some (family, s.plotter.point g ((o.inFrame g).map quantizeCoordinate)), ∀ a,
      Guarded (b + t.share c) ((s.pen.arrival g o').along a) (w.2.along a) := by
  rintro w hw a
  obtain rfl := Option.some.inj hw
  rw [h.point hopen]
  exact guarded_of_around (hcontrol a) (htarget a) (h.position a)

/-- A control point which is implied: it is hardly farther from the pen than the
    one which it reflects. -/
def Implied (b : ℚ) (s : Stage) (C : Point) : Prop :=
  ∀ a, Guarded (b + 2 * slack) (s.pen.position.along a) (C.along a)

/-- The reflected control point of the same family. -/
theorem smooth (h : Reaches b s) (hopen : s.pen.closed = false) {family : CurveFamily}
    (hfamily : s.pen.family = some family) (hroom : b ≤ 2 ^ 125) :
    Implied b s (s.plotter.smoothControl family) := by
  intro a
  have hslack := Scalar.slack_nonneg
  obtain ⟨⟨f, C⟩, hcontrol, hsame⟩ := Option.map_eq_some_iff.1 (h.tracks.family.trans hfamily)
  have hguarded := h.control _ hcontrol a
  rw [hopen] at hcontrol
  change s.plotter.control = some (f, C) at hcontrol
  change f = family at hsame
  unfold Plotter.smoothControl
  rw [hcontrol, h.tracks.position_open hopen]
  simp only
  rw [if_pos hsame, Point.reflect_along]
  exact (hguarded.reflect (h.position a).1 hroom).mono (by linarith)

/-- The pen itself, if there is no such control point. -/
theorem here (h : Reaches b s) (hroom : b ≤ 2 ^ 125) (g : Frame) :
    Implied b s (s.pen.arrival g s.pen.here) := by
  intro a
  rw [Pen.here_along]
  exact guarded_here (h.position a) (by unfold slack; linarith)

/-- The control point which a smooth curve implies, however it is written. -/
theorem implied (h : Reaches b s) (hopen : s.pen.closed = false) {family : CurveFamily} {g : Frame}
    {C : Point} (hC : s.pen.Implies s.plotter family g C) (hroom : b ≤ 2 ^ 125) :
    Implied b s C := by
  cases hC with
  | reflected hfamily => exact h.smooth hopen hfamily hroom
  | here => exact h.here hroom g

theorem Implied.finite {C : Point} (h : Implied b s C) : C.All fun x => x.isFinite = true :=
  .of_along fun a => (h a).finite

/-- What was implied is guarded by the target, too. -/
theorem Implied.arrive {C q : Point} {c : Command} {f : Frame} (h : Implied b s C)
    (hq : ∀ a, (q.along a).Around (base f (s.pen.position.along a).value) (t.spread c)) (a : Axis) :
    Guarded (b + t.share c) (q.along a) (C.along a) := by
  have hslack := Scalar.slack_nonneg
  have hcarry := t.carry_nonneg c
  refine ((h a).arrive (hq a)).mono ?_
  unfold Transform.share Transform.spread
  linarith

section Commands

variable {f : Frame} {p q r : Point} {v : Scalar} {shape : ArcShape} (h : Reaches b s)
  (ht : t.Finite) (hopen : s.pen.closed = false)

include h ht hopen

theorem draw_line (hc : Path.Finite (.lineTo f p)) (hroom : b + t.share (.lineTo f p) ≤ 2 ^ 125) :
    Draws t b s (.lineTo f p) := by
  have hp := t.carries_operands hc
  exact ⟨.cons (h.point_finite ht hroom hopen hp _) .nil,
    h.drawn hopen rfl (h.arrived (h.operand ht hroom hp _)) fun w hw => by cases hw⟩

theorem draw_horizontal (hc : Path.Finite (.horizontalTo f v))
    (hroom : b + t.share (.horizontalTo f v) ≤ 2 ^ 125) : Draws t b s (.horizontalTo f v) := by
  obtain ⟨hdrawn, harrival⟩ :=
    h.axisLine ht hroom hopen (f := f) .horizontal (t.carries_operands hc)
  have hother := (h.position .vertical).mono
    (le_add_of_nonneg_right (t.share_nonneg (.horizontalTo f v)))
  refine ⟨.cons ⟨?_, ?_⟩ .nil, h.drawn hopen rfl (fun a => ?_) fun w hw => by cases hw⟩
  · exact (congrArg Scalar.isFinite hdrawn).trans harrival.1
  · show s.plotter.position.y.isFinite = true
    rw [h.tracks.position_open hopen]
    exact hother.1
  · cases a with
    | horizontal => exact harrival
    | vertical => exact hother

theorem draw_vertical (hc : Path.Finite (.verticalTo f v))
    (hroom : b + t.share (.verticalTo f v) ≤ 2 ^ 125) : Draws t b s (.verticalTo f v) := by
  obtain ⟨hdrawn, harrival⟩ :=
    h.axisLine ht hroom hopen (f := f) .vertical (t.carries_operands hc)
  have hother := (h.position .horizontal).mono
    (le_add_of_nonneg_right (t.share_nonneg (.verticalTo f v)))
  refine ⟨.cons ⟨?_, ?_⟩ .nil, h.drawn hopen rfl (fun a => ?_) fun w hw => by cases hw⟩
  · show s.plotter.position.x.isFinite = true
    rw [h.tracks.position_open hopen]
    exact hother.1
  · exact (congrArg Scalar.isFinite hdrawn).trans harrival.1
  · cases a with
    | horizontal => exact hother
    | vertical => exact harrival

theorem draw_quad (hc : Path.Finite (.quadTo f q p))
    (hroom : b + t.share (.quadTo f q p) ≤ 2 ^ 125) : Draws t b s (.quadTo f q p) := by
  obtain ⟨hq, hp⟩ := t.carries_operands hc
  exact ⟨.cons ⟨h.point_finite ht hroom hopen hq _, h.point_finite ht hroom hopen hp _⟩ .nil,
    h.drawn hopen rfl (h.arrived (h.operand ht hroom hp _))
      (h.control_guarded hopen (h.operand ht hroom hq _) (h.operand ht hroom hp _) .quad)⟩

theorem draw_cubic (hc : Path.Finite (.cubicTo f r q p))
    (hroom : b + t.share (.cubicTo f r q p) ≤ 2 ^ 125) : Draws t b s (.cubicTo f r q p) := by
  obtain ⟨hr, hq, hp⟩ := t.carries_operands hc
  exact ⟨.cons ⟨h.point_finite ht hroom hopen hr _, h.point_finite ht hroom hopen hq _,
      h.point_finite ht hroom hopen hp _⟩ .nil,
    h.drawn hopen rfl (h.arrived (h.operand ht hroom hp _))
      (h.control_guarded hopen (h.operand ht hroom hq _) (h.operand ht hroom hp _) .cubic)⟩

theorem draw_arc (hc : Path.Finite (.arcTo f shape p))
    (hroom : b + t.share (.arcTo f shape p) ≤ 2 ^ 125) : Draws t b s (.arcTo f shape p) := by
  obtain ⟨hradii, -, hp⟩ := t.carries_operands hc
  have hslack := Scalar.slack_nonneg
  have hcarry := t.carry_nonneg (.arcTo f shape p)
  have hb := (h.position .horizontal).nonneg
  have hcarried : 2 * t.carry (.arcTo f shape p) + slack ≤ 2 ^ 125 := by
    unfold Transform.share Transform.spread at hroom
    linarith
  -- radii are scaled and quantized
  have hradius {x : Scalar} (hx : t.Carries (t.carry (.arcTo f shape p)) x) :
      (quantizeCoordinate (t.scale * x)).isFinite = true := by
    have hscaled := t.scaled_around ht hx (by linarith)
    exact (hscaled.quantize (by rw [abs_zero]; linarith)).1
  exact ⟨.cons ⟨⟨hradius hradii.1, hradius hradii.2⟩, h.point_finite ht hroom hopen hp _⟩ .nil,
    h.drawn hopen rfl (h.arrived (h.operand ht hroom hp _)) fun w hw => by cases hw⟩

theorem draw_smoothQuad (hc : Path.Finite (.smoothQuadTo f p))
    (hroom : b + t.share (.smoothQuadTo f p) ≤ 2 ^ 125) : Draws t b s (.smoothQuadTo f p) := by
  obtain ⟨g, C, hC, hpen, hsegments, hplotter⟩ := h.tracks.smoothQuad (t := t) hopen f p
  have hcontrol := h.implied hopen hC (by linarith [t.share_nonneg (.smoothQuadTo f p)])
  have htarget := h.operand (f := f) ht hroom (t.carries_operands hc) g
  refine ⟨?_, h.drawn hopen rfl ?_ ?_⟩
  · rw [hsegments]
    exact .cons ⟨hcontrol.finite, .of_along fun a => (htarget a).1⟩ .nil
  · rw [hpen]
    exact h.arrived htarget
  · unfold Stage.draw
    rw [hplotter, hpen]
    rintro w hw a
    obtain rfl := Option.some.inj hw
    exact hcontrol.arrive htarget a

theorem draw_smoothCubic (hc : Path.Finite (.smoothCubicTo f q p))
    (hroom : b + t.share (.smoothCubicTo f q p) ≤ 2 ^ 125) : Draws t b s (.smoothCubicTo f q p) := by
  obtain ⟨hq, hp⟩ := t.carries_operands hc
  -- the first control point is implied, the other two points are operands
  obtain ⟨g, C, hC, hpen, hsegments, hplotter⟩ := h.tracks.smoothCubic (t := t) hopen f q p
  have hcontrol := h.implied hopen hC (by linarith [t.share_nonneg (.smoothCubicTo f q p)])
  have hsecond := h.operand (f := f) ht hroom hq g
  have htarget := h.operand (f := f) ht hroom hp g
  refine ⟨?_, h.drawn hopen rfl ?_ ?_⟩
  · rw [hsegments]
    exact .cons ⟨hcontrol.finite, .of_along fun a => (hsecond a).1, .of_along fun a => (htarget a).1⟩
      .nil
  · rw [hpen]
    exact h.arrived htarget
  · unfold Stage.draw
    rw [hplotter, hpen, ← h.point hopen]
    exact h.control_guarded hopen hsecond htarget .cubic

/-- **A command on an open sub-path** draws finite numbers. -/
theorem draw {c : Command} (hdraws : Pen.needsOpen c = true) (hc : Path.Finite c)
    (hroom : b + t.share c ≤ 2 ^ 125) : Draws t b s c := by
  cases c with
  | moveTo | close => cases hdraws
  | lineTo => exact h.draw_line ht hopen hc hroom
  | horizontalTo => exact h.draw_horizontal ht hopen hc hroom
  | verticalTo => exact h.draw_vertical ht hopen hc hroom
  | cubicTo => exact h.draw_cubic ht hopen hc hroom
  | smoothCubicTo => exact h.draw_smoothCubic ht hopen hc hroom
  | quadTo => exact h.draw_quad ht hopen hc hroom
  | smoothQuadTo => exact h.draw_smoothQuad ht hopen hc hroom
  | arcTo => exact h.draw_arc ht hopen hc hroom

end Commands

/-! ### Sub-paths. -/

theorem start_finite (h : Reaches b s) : s.plotter.start.All fun x => x.isFinite = true := by
  rw [h.tracks.start]
  exact .of_along fun a => (h.start a).1

/-- A close leads back to the start. -/
theorem close (h : Reaches b s) : Reaches b (s.draw t quantizeCoordinate .close) :=
  ⟨Tracks.close (t := t) h.tracks, h.start, h.start, fun w hw => by cases hw⟩

/-- **A move** starts a sub-path within the wider radius. -/
theorem move (h : Reaches b s) (ht : t.Finite) {f : Frame} {p : Point}
    (hc : Path.Finite (.moveTo f p)) (hroom : b + t.share (.moveTo f p) ≤ 2 ^ 125) :
    Reaches (b + t.share (.moveTo f p)) (s.draw t quantizeCoordinate (.moveTo f p)) := by
  have hslack := Scalar.slack_nonneg
  have hcarry := t.carry_nonneg (.moveTo f p)
  have hspread := t.spread_le_share (.moveTo f p)
  unfold Transform.spread at hspread
  obtain ⟨g, harrival⟩ := s.pen.closeMove_along (s.pen.operand t f p).absolute
  have hbound (a : Axis) : ((s.pen.draw t (.moveTo f p)).2.position.along a).Bounded
      (b + t.share (.moveTo f p)) := by
    have hsize := abs_base_le f (s.pen.position.along a).value
    have hposition := (h.position a).le
    have htarget := target_around ht (h.position a) ((t.carries_operands hc).along a)
      (s.pen.operand_along t f p a) (by linarith)
    have hland := land_target (f := g) htarget (h.start a) (by linarith)
    rw [← harrival a] at hland
    exact (bounded_of_around hland (h.position a)).mono (by linarith)
  exact ⟨h.tracks.move f p, hbound, hbound, fun w hw => by cases hw⟩

/-- **Drawing on a closed sub-path** starts a new one where the old one started. -/
theorem restart (h : Reaches b s) : Reaches b (s.restart quantizeCoordinate) := by
  have hbound (a : Axis) : ((s.pen.closeMove s.pen.start).2.position.along a).Bounded b := by
    obtain ⟨hfinite, hle⟩ := h.start a
    have hsame := Pen.closeMove_start s.pen (fun a => (h.start a).1) a
    refine ⟨hsame.isFinite.trans hfinite, ?_⟩
    rw [hsame.value]
    exact hle
  exact ⟨Tracks.closeMove h.tracks.start s.pen.start, hbound, hbound, fun w hw => by cases hw⟩

/-- **The first move** starts a path within its share. -/
theorem initial (ht : t.Finite) {f : Frame} {p : Point} (hc : Path.Finite (.moveTo f p))
    (hroom : t.share (.moveTo f p) ≤ 2 ^ 125) :
    Reaches (t.share (.moveTo f p)) (.initial t quantizeCoordinate f p) := by
  have hslack := Scalar.slack_nonneg
  have hcarry := t.carry_nonneg (.moveTo f p)
  have hspread := t.spread_le_share (.moveTo f p)
  unfold Transform.spread at hspread
  have hbound (a : Axis) :
      ((quantize (t.apply p)).along a).Bounded (t.share (.moveTo f p)) := by
    have himage := t.image_around (a := a) ht ((t.carries_operands hc).along a) (by linarith)
    have hquantized := himage.quantize (by rw [abs_zero]; linarith)
    have hstart : (quantize (t.apply p)).along a = quantizeCoordinate (t.image a (p.along a)) := by
      cases a <;> rfl
    have hle := hquantized.abs_le
    rw [abs_zero] at hle
    rw [hstart]
    exact ⟨hquantized.1, by linarith⟩
  exact ⟨Tracks.initial _, hbound, hbound, fun w hw => by cases hw⟩

/-- **Every command keeps the path within its budget.** -/
theorem simulates (ht : t.Finite) :
    Simulates t quantizeCoordinate (fun g _ => PointsFinite g) (fun _ => True) fun cs s =>
      ∃ b, Reaches b s ∧ (∀ c ∈ cs, Path.Finite c) ∧ b + t.budget cs ≤ 2 ^ 125 where
  closing := by
    rintro cs s ⟨b, h, -, -⟩ -
    exact h.start_finite
  close := by
    rintro cs s ⟨b, h, hfinite, hroom⟩
    unfold Transform.budget at hroom
    exact ⟨b, h.close, fun c hc => hfinite c (List.mem_cons_of_mem _ hc),
      by linarith [t.share_nonneg .close]⟩
  move := by
    rintro f target cs s ⟨b, h, hfinite, hroom⟩ -
    unfold Transform.budget at hroom
    have hmove := h.move ht (hfinite _ List.mem_cons_self) (by linarith [t.budget_nonneg cs])
    exact ⟨hmove.start_finite, _, hmove, fun c hc => hfinite c (List.mem_cons_of_mem _ hc),
      by linarith⟩
  restart := by
    rintro c cs s ⟨b, h, hfinite, hroom⟩ - - -
    exact ⟨h.restart.start_finite, b, h.restart, hfinite, hroom⟩
  draw := by
    rintro c cs s ⟨b, h, hfinite, hroom⟩ hopen hdraws -
    unfold Transform.budget at hroom
    obtain ⟨hpoints, hnext⟩ := h.draw ht hopen hdraws (hfinite c List.mem_cons_self)
      (by linarith [t.budget_nonneg cs])
    exact ⟨hpoints, _, hnext, fun c hc => hfinite c (List.mem_cons_of_mem _ hc), by linarith⟩

end Reaches

/-! ## §2. Whole paths. -/

/-- The commands add up to less than the range of single precision, under a
    transform which is finite itself. -/
structure InRange (t : Transform) (cs : List Command) : Prop where
  finite : t.Finite
  budget_le : t.budget cs ≤ 2 ^ 125

instance InRange.decidable (t : Transform) (cs : List Command) : Decidable (InRange t cs) :=
  decidable_of_iff (t.Finite ∧ t.budget cs ≤ 2 ^ 125)
    ⟨fun h => ⟨h.1, h.2⟩, fun h => ⟨h.finite, h.budget_le⟩⟩

/-- The rotation of an arc is finite. -/
def RotationFinite : Segment → Prop
  | .arc s _ => s.rotation.isFinite = true
  | _ => True

/-- A command draws rotations which are finite. -/
theorem draw_rotationFinite (t : Transform) (pen : Pen) (plotter : Plotter) (cursor : Cursor)
    {c : Command} (hc : Pen.needsOpen c = true) (hfinite : Path.Finite c) :
    List.Forall₂ (fun g _ => RotationFinite g)
      (plotter.segments ((pen.draw t c).1.map (Instruction.readAs recoverCoordinate)))
      [mapSegment t (cursor.resolve c)] := by
  cases c with
  | moveTo | close => cases hc
  | lineTo | horizontalTo | verticalTo | cubicTo | quadTo => exact .cons trivial .nil
  | smoothCubicTo f second target =>
    unfold Pen.draw
    simp only
    split <;> exact .cons trivial .nil
  | smoothQuadTo f target =>
    unfold Pen.draw
    simp only
    split <;> exact .cons trivial .nil
  | arcTo f shape target => exact .cons (rotation_error hfinite.2.1).1 .nil

/-- Rotations do not depend on where the path is. -/
theorem simulates_rotationFinite (t : Transform) :
    Simulates t recoverCoordinate (fun g _ => RotationFinite g) (fun _ => True)
      fun cs _ => ∀ c ∈ cs, Path.Finite c where
  closing _ _ := trivial
  close h c hc := h c (List.mem_cons_of_mem _ hc)
  move h _ := ⟨trivial, fun c hc => h c (List.mem_cons_of_mem _ hc)⟩
  restart h _ _ _ := ⟨trivial, h⟩
  draw h _ hc _ := ⟨draw_rotationFinite _ _ _ _ hc (h _ List.mem_cons_self),
    fun c hc => h c (List.mem_cons_of_mem _ hc)⟩

/-- Quantizing does not make an infinity or a NaN finite. -/
theorem isFinite_of_quantize {x : Scalar} (h : (quantizeCoordinate x).isFinite = true) :
    x.isFinite = true := by
  rcases quantizeCoordinate_cases x with hx | hx
  · rwa [hx] at h
  · rw [hx, Scalar.isFinite_eq, unpacked_real] at h
    -- an exponent field which is full is kept
    refine bne_iff_ne.2 fun h255 => ?_
    rw [h255] at h
    unfold ofFields at h
    rw [if_pos rfl] at h
    split at h <;> cases h

/-- Numbers which agree are finite together. -/
theorem pointsFinite_of_matches {g g' : Segment} (h : g.Matches Point.Agrees Eq g')
    (hg : PointsFinite g') : PointsFinite g := by
  have hpoint {p q : Point} (hpq : p.Agrees q) (hq : q.All fun x => x.isFinite = true) :
      p.All fun x => x.isFinite = true :=
    ⟨hpq.x.isFinite.trans hq.1, hpq.y.isFinite.trans hq.2⟩
  cases h with
  | move h | line h | close h => exact hpoint h hg
  | quad hc hp => exact ⟨hpoint hc hg.1, hpoint hp hg.2⟩
  | cubic hb hc hp => exact ⟨hpoint hb hg.1, hpoint hc hg.2.1, hpoint hp hg.2.2⟩
  | arc hr _ hp => exact ⟨hpoint hr hg.1, hpoint hp hg.2⟩

namespace Shows

variable {t : Transform} {cs : List Command} {painted : PaintedPath}

theorem segments_eq {o : Outline} (h : painted.strokes = o.recovered.strokes) :
    painted.segments = o.recovered.segments := congrArg (List.map Stroke.segment) h

/-- **A path in range is shown with finite numbers.** -/
theorem points_finite (h : Shows t cs painted) (hfinite : ∀ c ∈ cs, Path.Finite c)
    (hrange : InRange t cs) : ∀ g ∈ painted.segments, PointsFinite g := by
  obtain ⟨o, ho, hstrokes⟩ := h
  have hquantized : List.Forall₂ (fun g _ => PointsFinite g)
      (o.readAs quantizeCoordinate).segments (reference t cs) := by
    match cs, ho with
    | .moveTo f p :: cs, ho =>
      have hroom := hrange.budget_le
      unfold Transform.budget at hroom
      refine (Reaches.simulates hrange.finite).outline ho (fun _ _ => trivial) fun _ => ?_
      have hinitial := Reaches.initial hrange.finite (hfinite _ List.mem_cons_self)
        (by linarith [t.budget_nonneg cs])
      exact ⟨hinitial.start_finite, _, hinitial,
        fun c hc => hfinite c (List.mem_cons_of_mem _ hc), hroom⟩
  -- what is read back agrees with what was quantized
  rw [segments_eq hstrokes]
  have hrecovered : List.Forall₂ (fun g _ => PointsFinite g) o.recovered.segments (reference t cs) :=
    List.forall₂_trans (S := fun g _ => PointsFinite g) (U := fun g _ => PointsFinite g)
      pointsFinite_of_matches o.recovered_agrees hquantized
  exact List.forall_of_forall₂ hrecovered

/-- **Rotations are finite**, whatever the transform is. -/
theorem rotations_finite (h : Shows t cs painted) (hfinite : ∀ c ∈ cs, Path.Finite c) :
    ∀ g ∈ painted.segments, RotationFinite g := by
  obtain ⟨o, ho, hstrokes⟩ := h
  rw [segments_eq hstrokes]
  match cs, ho with
  | .moveTo f p :: cs, ho =>
    exact List.forall_of_forall₂ ((simulates_rotationFinite t).outline ho (fun _ _ => trivial)
      fun _ => ⟨trivial, fun c hc => hfinite c (List.mem_cons_of_mem _ hc)⟩)

/-- **A transform which is not finite spoils every path**, from its start on. -/
theorem transform_finite (h : Shows t cs painted)
    (hpoints : ∀ g ∈ painted.segments, PointsFinite g) : t.Finite := by
  obtain ⟨o, ho, hstrokes⟩ := h
  rw [segments_eq hstrokes] at hpoints
  match cs, ho with
  | .moveTo f p :: cs, ho =>
    cases ho
    have hstart : (recoverPoint (quantize (t.apply p))).All fun x => x.isFinite = true :=
      hpoints _ List.mem_cons_self
    -- the start is quantized and read back, and neither makes an infinity finite
    have himage (a : Axis) : (t.image a (p.along a)).isFinite = true := by
      have hread := hstart.along a
      have hrecovered : (recoverPoint (quantize (t.apply p))).along a =
          recoverCoordinate (quantizeCoordinate (t.image a (p.along a))) := by
        cases a <;> rfl
      rw [hrecovered, (recoverCoordinate_quantized _).isFinite] at hread
      exact isFinite_of_quantize hread
    have hparts (a : Axis) := Scalar.isFinite_of_mul (himage a)
    exact ⟨(hparts .horizontal).1,
      .of_along fun a => (Scalar.isFinite_of_sub (hparts a).2).2⟩

end Shows

end Icon

end VectorIcon

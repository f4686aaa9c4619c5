/-
  VectorIcon.Proofs.Icon.Tolerance
  ────────────────────────────────
  **HOW FAR THE PEN IS FROM THE REFERENCE, ALONG ONE AXIS.**

  The reference resolves a command where it was drawn and maps the points into
  icon space; the pen maps the operands and counts in icon space.  Between the
  two stand the exact images of the source coordinates.  `deviation` is what the
  pen misses of them, a rational number, and every coordinate of a path follows
  one of four laws:

      an absolute operand  — the deviation is at most `landing`
      a relative operand   — it differs from that of the pen by at most `offset`
      a move               — the same, though counted from the sub-path's start
      a reflected control  — it is the pen's, reflected, up to `reflection`

  A `Tolerance` names these bounds, some of them for each axis, with what they
  presuppose, and `Tolerance.Bounds` are the laws.  The arithmetic behind them is
  left to the modules which prove the laws for a tolerance of their own.
-/
import VectorIcon.Proofs.Icon.Tracking
import VectorIcon.Proofs.Path.Commands

namespace VectorIcon

/-! ## §1. Axes. -/

/-- The two directions of the plane. -/
inductive Axis where
  | horizontal
  | vertical
deriving DecidableEq

/-- A coordinate of a point. -/
def Point.along (p : Point) : Axis → Scalar
  | .horizontal => p.x
  | .vertical => p.y

/-- Points whose coordinates are related. -/
def Point.Both (related : Scalar → Scalar → Prop) (p q : Point) : Prop :=
  related p.x q.x ∧ related p.y q.y

theorem Point.All.along {holds : Scalar → Prop} {p : Point} (h : p.All holds) (a : Axis) :
    holds (p.along a) := by
  cases a with
  | horizontal => exact h.1
  | vertical => exact h.2

theorem Point.Both.of_along {related : Scalar → Scalar → Prop} {p q : Point}
    (h : ∀ a, related (p.along a) (q.along a)) : p.Both related q := ⟨h .horizontal, h .vertical⟩

theorem Point.reflect_along (p center : Point) (a : Axis) :
    (p.reflect center).along a = 2.0 * center.along a - p.along a := by
  cases a <;> rfl

theorem Point.sub_along (p q : Point) (a : Axis) : (p - q).along a = p.along a - q.along a := by
  cases a <;> rfl

namespace Transform

/-- The image of a coordinate. -/
def image (t : Transform) (a : Axis) (v : Scalar) : Scalar := t.scale * (v - t.center.along a)

theorem apply_along (t : Transform) (p : Point) (a : Axis) :
    (t.apply p).along a = t.image a (p.along a) := by
  cases a <;> rfl

/-- The image which a coordinate would have without rounding. -/
def exact (t : Transform) (a : Axis) (v : Scalar) : ℚ :=
  t.scale.value * (v.value - (t.center.along a).value)

/-- What a coordinate in icon space misses of the exact image of a source
    coordinate. -/
def deviation (t : Transform) (a : Axis) (pen v : Scalar) : ℚ := pen.value - t.exact a v

end Transform

theorem Cursor.point_along (c : Cursor) (f : Frame) (p : Point) (a : Axis) :
    (c.point f p).along a = Cursor.coordinate f (c.position.along a) (p.along a) := by
  cases f with
  | absolute => cases a <;> rfl
  | relative => cases a <;> exact Scalar.add_comm _ _

/-- The number is finite and its value satisfies a predicate. -/
def Scalar.Holds (p : ℚ → Prop) (x : Scalar) : Prop := x.isFinite = true ∧ p x.value

namespace Icon

/-- Where an operand with the given forms lands, counted from the given place. -/
def land (f : Frame) (place absolute relative : Scalar) : Scalar :=
  match f with
  | .absolute => quantizeCoordinate absolute
  | .relative => place + quantizeCoordinate relative

theorem Pen.arrival_along (pen : Pen) (f : Frame) (o : Operand) (a : Axis) :
    (pen.arrival f o).along a = land f (pen.position.along a) (o.absolute.along a) (o.relative.along a) := by
  cases f <;> cases a <;> rfl

/-- The pen's own place as an operand. -/
theorem Pen.here_along (pen : Pen) (f : Frame) (a : Axis) :
    (pen.arrival f pen.here).along a = land f (pen.position.along a) (pen.position.along a) 0.0 := by
  have hzero : pen.here.relative.along a = 0.0 := by cases a <;> rfl
  rw [arrival_along, hzero]
  rfl

/-- A move counts its offset from the start of the sub-path which it closes. -/
theorem Pen.closeMove_along (pen : Pen) (target : Point) :
    ∃ g, ∀ a, (pen.closeMove target).2.position.along a =
      land g (pen.start.along a) (target.along a) (target.along a - pen.start.along a) := by
  refine ⟨Operand.shorter [⟨target, target - pen.start⟩], fun a => ?_⟩
  rw [← Point.sub_along]
  exact Pen.arrival_along { pen with position := pen.start } _ ⟨target, target - pen.start⟩ a

/-- A source operand has the forms of its coordinates. -/
theorem Pen.operand_along (pen : Pen) (t : Transform) (f : Frame) (p : Point) (a : Axis) :
    ((pen.operand t f p).absolute.along a, (pen.operand t f p).relative.along a) =
      Pen.axisForms f (pen.position.along a) (t.image a (p.along a)) (t.scale * p.along a) := by
  cases f <;> cases a <;> rfl

/-- The line along an axis which a command draws. -/
def Pen.alongAxis (pen : Pen) (t : Transform) (f : Frame) (a : Axis) (v : Scalar) :
    Frame × Scalar × Scalar :=
  axisLine (pen.position.along a) (axisForms f (pen.position.along a) (t.image a v) (t.scale * v))

/-- Where a line along an axis arrives. -/
theorem Pen.axisLine_arrival (place : Scalar) (forms : Scalar × Scalar) :
    (axisLine place forms).2.2 = land (axisLine place forms).1 place forms.1 forms.2 := by
  unfold axisLine
  split <;> rfl

/-- Zero takes one byte. -/
theorem coordinateSize_zero {x : Scalar} (hx : x.isFinite = true) (hzero : x.value = 0) :
    coordinateSize x = 1 := by
  obtain ⟨h64, hv64⟩ := Scalar.finite_64
  have hm64 := Scalar.finite_neg Scalar.finite_64
  -- zero is an integer of the shortest range
  have hone : (x.isIntegral && Scalar.inRange (-64.0) 64.0 x) = true := by
    rw [Bool.and_eq_true]
    refine ⟨(Scalar.isIntegral_iff x).2 ⟨hx, 0, by rw [hzero, Int.cast_zero]⟩, ?_⟩
    rw [Scalar.inRange_iff hm64.1 h64 hx, hm64.2, hv64, hzero]
    norm_num
  unfold coordinateSize Word.ofCoordinate
  simp only
  rw [if_pos hone]
  rfl

theorem one_le_coordinateSize (x : Scalar) : 1 ≤ coordinateSize x := by
  unfold coordinateSize
  cases Word.ofCoordinate x with
  | one => exact le_rfl
  | two | four => exact Nat.le_add_left 1 _

/-- The offset of a finite point from itself is zero. -/
theorem Point.sub_self_along {p : Point} (hfinite : ∀ a, (p.along a).isFinite = true) (a : Axis) :
    ((p - p).along a).isFinite = true ∧ ((p - p).along a).value = 0 := by
  have hdiff : (p.along a).value - (p.along a).value = ((0 : ℤ) : ℚ) := by
    rw [sub_self, Int.cast_zero]
  obtain ⟨hf, hv⟩ := Scalar.sub_exact (hfinite a) (hfinite a)
    (by rw [hdiff]; exact Short.ofInt (by norm_num)) (by rw [hdiff]; norm_num)
  rw [Point.sub_along, hv, sub_self]
  exact ⟨hf, rfl⟩

/-- Two bytes of offset against at least two of target: the offset is preferred. -/
theorem Operand.shorter_self {p : Point} (hfinite : ∀ a, (p.along a).isFinite = true) :
    shorter [⟨p, p - p⟩] = .relative := by
  have hzero := Point.sub_self_along hfinite
  have hsize : pointSize (p - p) = 2 := by
    show coordinateSize ((p - p).along .horizontal) + coordinateSize ((p - p).along .vertical) = 2
    rw [coordinateSize_zero (hzero .horizontal).1 (hzero .horizontal).2,
      coordinateSize_zero (hzero .vertical).1 (hzero .vertical).2]
  have hx := one_le_coordinateSize p.x
  have hy := one_le_coordinateSize p.y
  unfold shorter
  refine if_neg ?_
  show ¬ pointSize p + 0 < pointSize (p - p) + 0
  rw [hsize]
  unfold pointSize
  omega

/-- **A new sub-path at the start of the old one** begins exactly there: the
    offset zero is never longer. -/
theorem Pen.closeMove_start (pen : Pen) (hfinite : ∀ a, (pen.start.along a).isFinite = true)
    (a : Axis) :
    ((pen.closeMove pen.start).2.position.along a).Agrees (pen.start.along a) := by
  obtain ⟨hf, hv⟩ := Point.sub_self_along hfinite a
  have hkept : quantizeCoordinate ((pen.start - pen.start).along a) = (pen.start - pen.start).along a :=
    quantizeCoordinate_grid hf (n := 0) (by rw [hv]; norm_num) (by norm_num) (by norm_num)
  have harrival : (pen.closeMove pen.start).2.position.along a =
      pen.start.along a + (pen.start - pen.start).along a := by
    show (Pen.arrival { pen with position := pen.start }
      (Operand.shorter [⟨pen.start, pen.start - pen.start⟩]) _).along a = _
    rw [Operand.shorter_self hfinite, Pen.arrival_along]
    show _ + quantizeCoordinate _ = _
    rw [hkept]
  rw [harrival]
  exact .add_zero hf hv

/-! ## §2. Tolerances. -/

/-- What is known of the numbers of a path, and how far the pen may be off. -/
structure Tolerance where
  /-- Operands of the source. -/
  number : ℚ → Prop
  /-- Source coordinates of the cursor. -/
  source : Axis → ℚ → Prop
  /-- Points of the reference. -/
  inside : ℚ → Prop
  /-- Radii of the reference. -/
  radius : ℚ → Prop
  /-- Rotations of arcs. -/
  angle : Scalar → Prop
  /-- Coordinates of the pen. -/
  placed : ℚ → Prop
  close : Scalar → Scalar → Prop
  turned : Scalar → Scalar → Prop
  landing : ℚ
  offset : Axis → ℚ
  reflection : Axis → ℚ
  /-- How many offsets a deviation may have. -/
  limit : Axis → ℕ → Prop

namespace Tolerance

/-- **The laws of a tolerance** under a transform. -/
structure Bounds (T : Tolerance) (t : Transform) : Prop where
  landing_nonneg : 0 ≤ T.landing
  reflection_nonneg : ∀ a, 0 ≤ T.reflection a
  reflection_le : ∀ a, T.reflection a ≤ T.offset a
  landing_le : ∀ a, 2 * T.landing + T.reflection a ≤ 2 * T.offset a
  limit_zero : ∀ a, T.limit a 0
  /-- What deviates little is close to the reference. -/
  near : ∀ {a n pen v}, pen.isFinite = true → v.Holds (T.source a) → (t.image a v).Holds T.inside →
    T.limit a n → |t.deviation a pen v| ≤ 3 * T.landing + n * T.offset a →
    T.placed pen.value ∧ T.close pen (t.image a v)
  absolute : ∀ {a f place v}, T.number v.value → (t.image a v).Holds T.inside →
    (f = .relative → place.Holds T.placed) →
    v.Holds (T.source a) ∧ (land f place (t.image a v) (t.image a v - place)).isFinite = true ∧
      |t.deviation a (land f place (t.image a v) (t.image a v - place)) v| ≤ T.landing
  relative : ∀ {a f n pen v d}, T.number d.value → (t.image a (v + d)).Holds T.inside →
    pen.Holds T.placed → v.Holds (T.source a) → 1 ≤ n → T.limit a n →
    |t.deviation a pen v| ≤ 3 * T.landing + n * T.offset a →
    (v + d).Holds (T.source a) ∧ (land f pen (pen + t.scale * d) (t.scale * d)).isFinite = true ∧
      |t.deviation a (land f pen (pen + t.scale * d) (t.scale * d)) (v + d) - t.deviation a pen v| ≤
        T.offset a
  move : ∀ {a f n pen start v d}, T.number d.value → (t.image a (v + d)).Holds T.inside →
    pen.Holds T.placed → start.Holds T.placed → v.Holds (T.source a) → 1 ≤ n → T.limit a n →
    |t.deviation a pen v| ≤ 3 * T.landing + n * T.offset a →
    (v + d).Holds (T.source a) ∧
      (land f start (pen + t.scale * d) (pen + t.scale * d - start)).isFinite = true ∧
      |t.deviation a (land f start (pen + t.scale * d) (pen + t.scale * d - start)) (v + d) -
        t.deviation a pen v| ≤ T.offset a
  here : ∀ {f pen}, pen.Holds T.placed → (land f pen pen 0.0).isFinite = true ∧
    |(land f pen pen 0.0).value - pen.value| ≤ T.landing
  reflect : ∀ {a n pen control v w}, pen.Holds T.placed → control.Holds T.placed →
    v.Holds (T.source a) → w.Holds (T.source a) → (t.image a (2.0 * v - w)).Holds T.inside →
    1 ≤ n → T.limit a n →
    (2.0 * v - w : Scalar).Holds (T.source a) ∧ (2.0 * pen - control : Scalar).isFinite = true ∧
      |t.deviation a (2.0 * pen - control) (2.0 * v - w) -
        (2 * t.deviation a pen v - t.deviation a control w)| ≤ T.reflection a
  radii : ∀ {v}, T.number v.value → (t.scale * v).Holds T.radius →
    T.close (quantizeCoordinate (t.scale * v)) (t.scale * v)
  rotation : ∀ {r}, T.angle r →
    T.turned (recoverZeroToOne (r.withinTurn / Scalar.turn) * Scalar.turn) r.withinTurn

variable {T : Tolerance} {t : Transform} {a : Axis}

/-- The pen is where the reference is, as far as it has to be. -/
structure Lands (T : Tolerance) (t : Transform) (a : Axis) (pen v : Scalar) : Prop where
  placed : pen.Holds T.placed
  source : v.Holds (T.source a)
  close : T.close pen (t.image a v)

/-- The pen is where the reference is, up to so many offsets. -/
structure Near (T : Tolerance) (t : Transform) (a : Axis) (n : ℕ) (pen v : Scalar) : Prop where
  placed : pen.Holds T.placed
  source : v.Holds (T.source a)
  limit : T.limit a n
  deviation : |t.deviation a pen v| ≤ T.landing + n * T.offset a

namespace Bounds

theorem offset_nonneg (h : T.Bounds t) (a : Axis) : 0 ≤ T.offset a :=
  (h.reflection_nonneg a).trans (h.reflection_le a)

/-- Whatever deviates little lands. -/
theorem lands (h : T.Bounds t) {n : ℕ} {pen v : Scalar} (hpen : pen.isFinite = true)
    (hv : v.Holds (T.source a)) (hinside : (t.image a v).Holds T.inside) (hn : T.limit a n)
    (hdeviation : |t.deviation a pen v| ≤ 3 * T.landing + n * T.offset a) : T.Lands t a pen v := by
  obtain ⟨hplaced, hclose⟩ := h.near hpen hv hinside hn hdeviation
  exact ⟨⟨hpen, hplaced⟩, hv, hclose⟩

/-- More offsets are more room. -/
theorem room (h : T.Bounds t) {m n : ℕ} (hmn : m ≤ n) {x : ℚ} (hx : x ≤ T.landing + m * T.offset a) :
    x ≤ 3 * T.landing + n * T.offset a := by
  have hcast : (m : ℚ) ≤ n := by exact_mod_cast hmn
  have hmul := mul_le_mul_of_nonneg_right hcast (h.offset_nonneg a)
  have hlanding := h.landing_nonneg
  linarith

end Bounds

/-- What is near lands. -/
theorem Near.lands {n : ℕ} {pen v : Scalar} (hn : T.Near t a n pen v) (h : T.Bounds t)
    (hinside : (t.image a v).Holds T.inside) : T.Lands t a pen v :=
  h.lands hn.placed.1 hn.source hinside hn.limit (h.room le_rfl hn.deviation)

/-! ## §3. Operands. -/

/-- How many offsets the deviation of a place has, if the latest operand before
    it had the given form. -/
def count (f : Frame) (n : ℕ) : ℕ :=
  match f with
  | .absolute => 0
  | .relative => n + 1

/-- The deviation from which that of an operand is counted. -/
def base (f : Frame) (x : ℚ) : ℚ :=
  match f with
  | .absolute => 0
  | .relative => x

/-- How far an operand may be off from there. -/
def slack (T : Tolerance) (a : Axis) (f : Frame) : ℚ :=
  match f with
  | .absolute => T.landing
  | .relative => T.offset a

namespace Near

variable {n : ℕ} {pen start v x : Scalar} {f : Frame}

/-- An operand deviates from its base by the slack. -/
theorem deviation_le (hn : T.Near t a n pen v) {y : ℚ}
    (hy : |y - base f (t.deviation a pen v)| ≤ T.slack a f) :
    |y| ≤ T.landing + count f n * T.offset a := by
  cases f with
  | absolute =>
    have hy : |y - 0| ≤ T.landing := hy
    rw [sub_zero] at hy
    show |y| ≤ T.landing + ((0 : ℕ) : ℚ) * T.offset a
    rw [Nat.cast_zero, zero_mul, add_zero]
    exact hy
  | relative =>
    have hy : |y - t.deviation a pen v| ≤ T.offset a := hy
    have hdeviation := hn.deviation
    have hsum := abs_sub_abs_le_abs_sub y (t.deviation a pen v)
    show |y| ≤ T.landing + ((n + 1 : ℕ) : ℚ) * T.offset a
    push_cast
    linarith

/-- **What an operand does**: it lands, and deviates from its base by the slack. -/
theorem operand (hn : T.Near t a n pen v) (h : T.Bounds t) (g : Frame) (hx : T.number x.value)
    (hinside : (t.image a (Cursor.coordinate f v x)).Holds T.inside) (hlimit : T.limit a (count f n))
    {forms : Scalar × Scalar} (hforms : forms = Pen.axisForms f pen (t.image a x) (t.scale * x)) :
    T.Lands t a (land g pen forms.1 forms.2) (Cursor.coordinate f v x) ∧
      |t.deviation a (land g pen forms.1 forms.2) (Cursor.coordinate f v x) -
        base f (t.deviation a pen v)| ≤ T.slack a f := by
  subst hforms
  obtain ⟨hsource, hfinite, hslack⟩ :
      (Cursor.coordinate f v x).Holds (T.source a) ∧
      (land g pen (Pen.axisForms f pen (t.image a x) (t.scale * x)).1
        (Pen.axisForms f pen (t.image a x) (t.scale * x)).2).isFinite = true ∧
      |t.deviation a (land g pen (Pen.axisForms f pen (t.image a x) (t.scale * x)).1
        (Pen.axisForms f pen (t.image a x) (t.scale * x)).2) (Cursor.coordinate f v x) -
          base f (t.deviation a pen v)| ≤ T.slack a f := by
    cases f with
    | absolute =>
      obtain ⟨hsource, hfinite, hslack⟩ := h.absolute (f := g) hx hinside fun _ => hn.placed
      refine ⟨hsource, hfinite, ?_⟩
      show |_ - 0| ≤ T.landing
      rw [sub_zero]
      exact hslack
    | relative =>
      -- only a relative operand needs to know how far the pen is off
      exact h.relative hx hinside hn.placed hn.source (Nat.succ_le_succ n.zero_le) hlimit
        (h.room (Nat.le_succ n) hn.deviation)
  exact ⟨h.lands hfinite hsource hinside hlimit (h.room le_rfl (hn.deviation_le hslack)), hslack⟩

/-- **What a move does**: the same, counted from the start of the sub-path. -/
theorem moved (hn : T.Near t a n pen v) (h : T.Bounds t) (g : Frame) (hx : T.number x.value)
    (hinside : (t.image a (Cursor.coordinate f v x)).Holds T.inside) (hlimit : T.limit a (count f n))
    (hstart : start.Holds T.placed) {target : Scalar}
    (htarget : target = (Pen.axisForms f pen (t.image a x) (t.scale * x)).1) :
    T.Near t a (count f n) (land g start target (target - start)) (Cursor.coordinate f v x) := by
  subst htarget
  cases f with
  | absolute =>
    obtain ⟨hsource, hfinite, hslack⟩ := h.absolute (f := g) hx hinside fun _ => hstart
    rw [← sub_zero (t.deviation a _ _)] at hslack
    have hdeviation := hn.deviation_le (f := .absolute) hslack
    exact ⟨(h.lands hfinite hsource hinside hlimit (h.room le_rfl hdeviation)).placed, hsource, hlimit,
      hdeviation⟩
  | relative =>
    obtain ⟨hsource, hfinite, hslack⟩ := h.move (f := g) hx hinside hn.placed hstart hn.source
      (Nat.succ_le_succ n.zero_le) hlimit (h.room (Nat.le_succ n) hn.deviation)
    have hdeviation := hn.deviation_le (f := .relative) hslack
    exact ⟨(h.lands hfinite hsource hinside hlimit (h.room le_rfl hdeviation)).placed, hsource, hlimit,
      hdeviation⟩

/-- What has landed within the slack is near. -/
theorem of_slack (hn : T.Near t a n pen v) {P w : Scalar} (hlands : T.Lands t a P w)
    (hslack : |t.deviation a P w - base f (t.deviation a pen v)| ≤ T.slack a f)
    (hlimit : T.limit a (count f n)) : T.Near t a (count f n) P w :=
  ⟨hlands.placed, hlands.source, hlimit, hn.deviation_le hslack⟩

end Near

/-! ## §4. Control points. -/

/-- A control point deviates little more than the pen, up to so many offsets. -/
structure Guides (T : Tolerance) (t : Transform) (a : Axis) (gap : ℕ) (pen v control w : Scalar) :
    Prop where
  placed : control.Holds T.placed
  source : w.Holds (T.source a)
  deviation : |t.deviation a control w - t.deviation a pen v| ≤ 2 * T.landing + gap * T.offset a

section

variable {n gap : ℕ} {pen v control w : Scalar}

/-- A control point which a smooth curve implies: it lands, and deviates from the
    pen by one reflection more than the one of the given gap. -/
structure Implied (T : Tolerance) (t : Transform) (a : Axis) (gap : ℕ) (pen v control w : Scalar) :
    Prop where
  lands : T.Lands t a control w
  deviation : |t.deviation a control w - t.deviation a pen v| ≤
    2 * T.landing + gap * T.offset a + T.reflection a

/-- **The reflected control point** is one offset further off than the point which
    it reflects. -/
theorem Guides.reflect (hw : T.Guides t a gap pen v control w) (hn : T.Near t a n pen v)
    (h : T.Bounds t) (hinside : (t.image a (2.0 * v - w)).Holds T.inside)
    (hlimit : T.limit a (n + gap + 1)) :
    T.Implied t a gap pen v (2.0 * pen - control) (2.0 * v - w) := by
  obtain ⟨hsource, hfinite, hreflect⟩ := h.reflect hn.placed hw.placed hn.source hw.source hinside
    (Nat.le_add_left 1 _) hlimit
  have hcontrol := hw.deviation
  have hgap : |t.deviation a (2.0 * pen - control) (2.0 * v - w) - t.deviation a pen v| ≤
      2 * T.landing + gap * T.offset a + T.reflection a := by
    -- reflected, the difference to the pen changes its sign
    generalize t.deviation a (2.0 * pen - control) (2.0 * v - w) = y at hreflect ⊢
    generalize t.deviation a pen v = x at hreflect hcontrol ⊢
    generalize t.deviation a control w = z at hreflect hcontrol
    have hsplit : y - x = y - (2 * x - z) - (z - x) := by ring
    rw [hsplit]
    exact (abs_sub _ _).trans (by linarith)
  refine ⟨h.lands hfinite hsource hinside hlimit ?_, hgap⟩
  have hpen := hn.deviation
  have hreflection := h.reflection_le a
  have hsum := abs_sub_abs_le_abs_sub (t.deviation a (2.0 * pen - control) (2.0 * v - w))
    (t.deviation a pen v)
  push_cast
  linarith

/-- **The pen as a control point** is no further off than the pen, up to one
    landing. -/
theorem Near.here (hn : T.Near t a n pen v) (h : T.Bounds t) (g : Frame)
    (hinside : (t.image a v).Holds T.inside) : T.Implied t a gap pen v (land g pen pen 0.0) v := by
  obtain ⟨hfinite, hhere⟩ := h.here (f := g) hn.placed
  have hdiff : |t.deviation a (land g pen pen 0.0) v - t.deviation a pen v| ≤ T.landing := by
    unfold Transform.deviation
    rw [sub_sub_sub_cancel_right]
    exact hhere
  have hlanding := h.landing_nonneg
  refine ⟨h.lands hfinite hn.source hinside hn.limit ?_, ?_⟩
  · have hpen := hn.deviation
    have hsum := abs_sub_abs_le_abs_sub (t.deviation a (land g pen pen 0.0) v) (t.deviation a pen v)
    linarith
  · have hreflection := h.reflection_nonneg a
    have hgap := mul_nonneg (Nat.cast_nonneg gap) (h.offset_nonneg a)
    linarith

/-- Offsets between the control point of a curve and its end. -/
def curveGap (f : Frame) : ℕ :=
  match f with
  | .absolute => 0
  | .relative => 2

/-- Offsets between the control point of a smooth curve and its end, if that
    point reflects one of the given gap. -/
def smoothGap (f : Frame) (n gap : ℕ) : ℕ :=
  match f with
  | .absolute => n + gap + 2
  | .relative => gap + 2

/-- The control point and the end of a curve are operands of one form. -/
theorem Guides.of_operands (h : T.Bounds t) {f : Frame} {x : ℚ} {P q : Scalar}
    (hcontrol : T.Lands t a control w) (hw : |t.deviation a control w - base f x| ≤ T.slack a f)
    (hq : |t.deviation a P q - base f x| ≤ T.slack a f) :
    T.Guides t a (curveGap f) P q control w := by
  refine ⟨hcontrol.placed, hcontrol.source, ?_⟩
  have htriangle := abs_sub_le (t.deviation a control w) (base f x) (t.deviation a P q)
  rw [abs_sub_comm (base f x)] at htriangle
  cases f with
  | absolute =>
    have hw : |t.deviation a control w - base .absolute x| ≤ T.landing := hw
    have hq : |t.deviation a P q - base .absolute x| ≤ T.landing := hq
    show _ ≤ 2 * T.landing + ((0 : ℕ) : ℚ) * T.offset a
    rw [Nat.cast_zero, zero_mul, add_zero]
    linarith
  | relative =>
    have hw : |t.deviation a control w - base .relative x| ≤ T.offset a := hw
    have hq : |t.deviation a P q - base .relative x| ≤ T.offset a := hq
    have hlanding := h.landing_nonneg
    show _ ≤ 2 * T.landing + ((2 : ℕ) : ℚ) * T.offset a
    push_cast
    linarith

/-- The control point of a smooth curve is not one of its operands. -/
theorem Guides.of_smooth (hn : T.Near t a n pen v) (h : T.Bounds t) {f : Frame} {P q : Scalar}
    (hw : T.Implied t a gap pen v control w)
    (hq : |t.deviation a P q - base f (t.deviation a pen v)| ≤ T.slack a f) :
    T.Guides t a (smoothGap f n gap) P q control w := by
  refine ⟨hw.lands.placed, hw.lands.source, ?_⟩
  have hpen := hn.deviation
  have hcontrol := hw.deviation
  have hreflection := h.reflection_le a
  have hlanding := h.landing_le a
  have htriangle := abs_sub_le (t.deviation a control w) (t.deviation a pen v) (t.deviation a P q)
  cases f with
  | absolute =>
    -- the end forgets the pen, so the deviation of the pen counts once more
    have hq : |t.deviation a P q - 0| ≤ T.landing := hq
    rw [sub_zero] at hq
    have hlast := abs_sub (t.deviation a pen v) (t.deviation a P q)
    show _ ≤ 2 * T.landing + ((n + gap + 2 : ℕ) : ℚ) * T.offset a
    push_cast
    linarith
  | relative =>
    have hq : |t.deviation a P q - t.deviation a pen v| ≤ T.offset a := hq
    rw [abs_sub_comm (t.deviation a pen v)] at htriangle
    show _ ≤ 2 * T.landing + ((gap + 2 : ℕ) : ℚ) * T.offset a
    push_cast
    linarith

end

end Tolerance

end Icon

end VectorIcon

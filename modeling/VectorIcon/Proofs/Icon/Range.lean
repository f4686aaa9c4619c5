/-
  VectorIcon.Proofs.Icon.Range
  ────────────────────────────────
  **HOW FAR ONE COMMAND CAN CARRY THE PEN.**

  The numbers of path data are finite, but they are scaled, added to the pen and
  reflected, and each of these can leave the range of single precision.  As long
  as nothing is beyond `2 ^ 126`, one rounding adds no more than `slack`, and what
  is computed stays `Around` what it would be without rounding.

  No operand lands farther from what it is counted from than its command carries:
  the operands and the center of the view box together, in the source or in icon
  space, whichever is larger (`Transform.spread`).  The `budget` of a path is what
  its commands add up to.
-/
import VectorIcon.Proofs.Icon.Tolerance

namespace VectorIcon

/-! ## §1. Numbers around a value. -/

namespace Scalar

/-- What one rounding adds at most to a number within `2 ^ 126`. -/
def slack : ℚ := 2 ^ 105

theorem slack_nonneg : 0 ≤ slack := by
  unfold slack
  positivity

/-- The coarsest rounding is that of a quantized coordinate. -/
theorem rounding_le_slack {v : ℚ} (h : |v| ≤ 2 ^ 126) : |v| / 2 ^ 22 + 2 ^ (-147 : ℤ) ≤ slack := by
  have htiny : (2 : ℚ) ^ (-147 : ℤ) ≤ 1 := by norm_num
  have hbits : |v| / 2 ^ 22 ≤ 2 ^ 126 / 2 ^ 22 := by gcongr
  unfold slack
  linarith

/-- What is within `2 ^ 126` is rounded to a finite number. -/
theorem lt_of_room {x : ℚ} (h : x ≤ 2 ^ 126) : x < 2 ^ 127 := h.trans_lt (by norm_num)

/-- The number is finite and at most `e` from `r`. -/
def Around (r e : ℚ) (x : Scalar) : Prop := x.Holds fun v => |v - r| ≤ e

namespace Around

variable {x y : Scalar} {r q d e : ℚ}

theorem refl (hx : x.isFinite = true) : Around x.value 0 x := by
  refine ⟨hx, ?_⟩
  show |x.value - x.value| ≤ 0
  rw [sub_self, abs_zero]

theorem mono (h : Around r d x) (hde : d ≤ e) : Around r e x := ⟨h.1, h.2.trans hde⟩

theorem error_le (h : Around r e x) : |x.value - r| ≤ e := h.2

/-- How large the number is. -/
theorem abs_le (h : Around r e x) : |x.value| ≤ |r| + e := by
  have htriangle := abs_sub_abs_le_abs_sub x.value r
  have herror := h.2
  linarith

/-- What is rounded from a number around a value is around it, too. -/
theorem rounded {v : ℚ} (hx : x.isFinite = true) (hv : |v - r| ≤ e) (hroom : |r| + e ≤ 2 ^ 126)
    (herror : |x.value - v| ≤ |v| / 2 ^ 22 + 2 ^ (-147 : ℤ)) : Around r (e + slack) x := by
  have hsize := abs_sub_abs_le_abs_sub v r
  have hslack := rounding_le_slack (v := v) (by linarith)
  have htriangle := abs_sub_le x.value v r
  exact ⟨hx, by linarith⟩

theorem neg (h : Around r e x) : Around (-r) e (-x) := by
  refine ⟨(isFinite_neg x).trans h.1, ?_⟩
  show |(-x).value - -r| ≤ e
  rw [value_neg, ← neg_sub', abs_neg]
  exact h.2

theorem add (hx : Around r d x) (hy : Around q e y) (hroom : |r + q| + (d + e) ≤ 2 ^ 126) :
    Around (r + q) (d + e + slack) (x + y) := by
  have hsum : |x.value + y.value - (r + q)| ≤ d + e := by
    rw [add_sub_add_comm]
    exact (abs_add_le _ _).trans (add_le_add hx.2 hy.2)
  have hsize := abs_sub_abs_le_abs_sub (x.value + y.value) (r + q)
  have hfinite := (add_approximates hx.1 hy.1).finite (lt_of_room (by linarith))
  refine rounded hfinite hsum hroom ((add_error hfinite hx.1 hy.1).trans ?_)
  have hnonneg := abs_nonneg (x.value + y.value)
  have htiny : (0 : ℚ) ≤ 2 ^ (-147 : ℤ) := by positivity
  linarith

theorem sub (hx : Around r d x) (hy : Around q e y) (hroom : |r - q| + (d + e) ≤ 2 ^ 126) :
    Around (r - q) (d + e + slack) (x - y) := by
  rw [sub_eq_add_neg] at hroom ⊢
  rw [Scalar.sub_eq_add_neg]
  exact hx.add hy.neg hroom

/-- **Quantizing** rounds once. -/
theorem quantize (hx : Around r e x) (hroom : |r| + e ≤ 2 ^ 126) :
    Around r (e + slack) (Icon.quantizeCoordinate x) := by
  obtain ⟨hfinite, herror⟩ := Icon.quantizeCoordinate_error hx.1
  exact rounded hfinite hx.2 hroom herror

end Around

end Scalar

/-! ## §2. What a command adds. -/

/-- Both coordinates together. -/
def Point.size (p : Point) : ℚ := |p.x.value| + |p.y.value|

/-- The operands together, the rotation of an arc aside. -/
def Command.size : Command → ℚ
  | .moveTo _ p | .lineTo _ p | .smoothQuadTo _ p => p.size
  | .horizontalTo _ v | .verticalTo _ v => |v.value|
  | .quadTo _ c p | .smoothCubicTo _ c p => c.size + p.size
  | .cubicTo _ b c p => b.size + c.size + p.size
  | .arcTo _ s p => s.radii.size + p.size
  | .close => 0

namespace Transform

/-- Scale and center are finite. -/
structure Finite (t : Transform) : Prop where
  scale : t.scale.isFinite = true
  center : t.center.All fun x => x.isFinite = true

instance Finite.decidable (t : Transform) : Decidable t.Finite :=
  decidable_of_iff
    (t.scale.isFinite = true ∧ t.center.x.isFinite = true ∧ t.center.y.isFinite = true)
    ⟨fun h => ⟨h.1, h.2⟩, fun h => ⟨h.scale, h.center⟩⟩

/-- How much numbers grow from the source to icon space, at least by nothing. -/
def factor (t : Transform) : ℚ := max 1 |t.scale.value|

/-- How far a command can carry the pen, were it not for rounding. -/
def carry (t : Transform) (c : Command) : ℚ := t.factor * (c.size + t.center.size)

/-- How far an operand of a command lands from where it is counted from, at most:
    a coordinate is rounded up to five times. -/
def spread (t : Transform) (c : Command) : ℚ := 2 * t.carry c + 5 * Scalar.slack

/-- How much a command adds to the radius of a path. -/
def share (t : Transform) (c : Command) : ℚ := 3 * t.spread c

/-- What the commands of a path add up to. -/
def budget (t : Transform) : List Command → ℚ
  | [] => 0
  | c :: cs => t.share c + t.budget cs

end Transform

theorem Point.size_nonneg (p : Point) : 0 ≤ p.size := add_nonneg (abs_nonneg _) (abs_nonneg _)

theorem Point.along_le_size (p : Point) (a : Axis) : |(p.along a).value| ≤ p.size := by
  cases a with
  | horizontal => exact le_add_of_nonneg_right (abs_nonneg _)
  | vertical => exact le_add_of_nonneg_left (abs_nonneg _)

theorem Command.size_nonneg (c : Command) : 0 ≤ c.size := by
  cases c with
  | moveTo _ p | lineTo _ p | smoothQuadTo _ p => exact p.size_nonneg
  | horizontalTo | verticalTo => exact abs_nonneg _
  | quadTo _ c p | smoothCubicTo _ c p => exact add_nonneg c.size_nonneg p.size_nonneg
  | cubicTo _ b c p => exact add_nonneg (add_nonneg b.size_nonneg c.size_nonneg) p.size_nonneg
  | arcTo _ s p => exact add_nonneg s.radii.size_nonneg p.size_nonneg
  | close => exact le_rfl

namespace Transform

theorem one_le_factor (t : Transform) : 1 ≤ t.factor := le_max_left _ _

theorem carry_nonneg (t : Transform) (c : Command) : 0 ≤ t.carry c :=
  mul_nonneg (zero_le_one.trans t.one_le_factor) (add_nonneg c.size_nonneg t.center.size_nonneg)

theorem spread_nonneg (t : Transform) (c : Command) : 0 ≤ t.spread c := by
  have hcarry := t.carry_nonneg c
  have hslack := Scalar.slack_nonneg
  unfold spread
  positivity

theorem share_nonneg (t : Transform) (c : Command) : 0 ≤ t.share c :=
  mul_nonneg (by norm_num) (t.spread_nonneg c)

theorem spread_le_share (t : Transform) (c : Command) : t.spread c ≤ t.share c :=
  le_mul_of_one_le_left (t.spread_nonneg c) (by norm_num)

theorem budget_nonneg (t : Transform) (cs : List Command) : 0 ≤ t.budget cs := by
  induction cs with
  | nil => exact le_rfl
  | cons c cs ih => exact add_nonneg (t.share_nonneg c) ih

/-- A coordinate of the source which carries no farther than `m`. -/
def Carries (t : Transform) (m : ℚ) (v : Scalar) : Prop :=
  v.Holds fun x => t.factor * (|x| + t.center.size) ≤ m

/-- **The operands of a command** carry no farther than the command. -/
theorem carries_operands (t : Transform) {c : Command} (hc : Path.Finite c) :
    c.All (t.Carries (t.carry c)) fun _ => True := by
  -- a coordinate is a part of the size, and so it carries less far
  have hpart {x : Scalar} (hx : x.isFinite = true) (h : |x.value| ≤ c.size) :
      t.Carries (t.carry c) x := by
    refine ⟨hx, mul_le_mul_of_nonneg_left ?_ (zero_le_one.trans t.one_le_factor)⟩
    exact add_le_add_left h _
  have hpoint {p : Point} (hp : p.All fun x => x.isFinite = true) (h : p.size ≤ c.size) :
      p.All (t.Carries (t.carry c)) :=
    ⟨hpart hp.1 ((p.along_le_size .horizontal).trans h),
      hpart hp.2 ((p.along_le_size .vertical).trans h)⟩
  cases c with
  | moveTo | lineTo | smoothQuadTo => exact hpoint hc le_rfl
  | horizontalTo | verticalTo => exact hpart hc le_rfl
  | quadTo _ c p | smoothCubicTo _ c p =>
    exact ⟨hpoint hc.1 (le_add_of_nonneg_right p.size_nonneg),
      hpoint hc.2 (le_add_of_nonneg_left c.size_nonneg)⟩
  | cubicTo _ b c p =>
    have hb := b.size_nonneg
    have hc' := c.size_nonneg
    have hp := p.size_nonneg
    refine ⟨hpoint hc.1 ?_, hpoint hc.2.1 ?_, hpoint hc.2.2 ?_⟩ <;>
      (unfold Command.size; linarith)
  | arcTo _ s p =>
    exact ⟨hpoint hc.1 (le_add_of_nonneg_right p.size_nonneg), trivial,
      hpoint hc.2.2 (le_add_of_nonneg_left s.radii.size_nonneg)⟩
  | close => exact trivial

variable {t : Transform} {a : Axis} {m : ℚ} {v : Scalar}

theorem Carries.nonneg (hv : t.Carries m v) : 0 ≤ m := by
  have hfactor := t.one_le_factor
  have hcenter := t.center.size_nonneg
  refine le_trans ?_ hv.2
  positivity

/-- Neither the source coordinates nor their scaled values are larger. -/
theorem Carries.le (hv : t.Carries m v) :
    |v.value| + t.center.size ≤ m ∧ |t.scale.value| * (|v.value| + t.center.size) ≤ m := by
  have hcenter := t.center.size_nonneg
  have hsum : 0 ≤ |v.value| + t.center.size := add_nonneg (abs_nonneg _) hcenter
  refine ⟨le_trans ?_ hv.2, le_trans ?_ hv.2⟩
  · exact le_mul_of_one_le_left hsum t.one_le_factor
  · exact mul_le_mul_of_nonneg_right (le_max_right _ _) hsum

/-- **A scaled number** carries the pen so far. -/
theorem scaled_around (ht : t.Finite) (hv : t.Carries m v) (hroom : m ≤ 2 ^ 126) :
    (t.scale * v).Around 0 (m + Scalar.slack) := by
  have hm := hv.nonneg
  have hproduct : |t.scale.value * v.value| ≤ m := by
    rw [abs_mul]
    refine le_trans ?_ hv.le.2
    exact mul_le_mul_of_nonneg_left (le_add_of_nonneg_right t.center.size_nonneg) (abs_nonneg _)
  have happrox := Scalar.mul_approximates ht.scale hv.1
  have hfinite := happrox.finite (Scalar.lt_of_room (hproduct.trans hroom))
  refine .rounded hfinite (by rw [sub_zero]; exact hproduct) (by rw [abs_zero, zero_add]; exact hroom) ?_
  have herror := (happrox.rounds hfinite).error_le
  have htiny : (2 : ℚ) ^ (-150 : ℤ) ≤ 2 ^ (-147 : ℤ) := by norm_num
  have hnonneg := abs_nonneg (t.scale.value * v.value)
  linarith

/-- **The image of a coordinate** is no farther from the origin than twice that. -/
theorem image_around (ht : t.Finite) (hv : t.Carries m v) (hroom : 2 * m ≤ 2 ^ 126) :
    (t.image a v).Around 0 (2 * m + Scalar.slack) := by
  have hm := hv.nonneg
  have hcenter := t.center.along_le_size a
  have hkfinite := ht.center.along a
  have hdiff : |v.value - (t.center.along a).value| ≤ |v.value| + t.center.size :=
    (abs_sub _ _).trans (by linarith)
  have hle := hv.le.1
  have hfinite := (Scalar.sub_approximates hv.1 hkfinite).finite (Scalar.lt_of_room (by linarith))
  -- rounding does not double the difference
  have hrounded : |(v - t.center.along a).value| ≤ 2 * (|v.value| + t.center.size) := by
    have herror := Scalar.sub_error hfinite hv.1 hkfinite
    have htriangle := abs_sub_abs_le_abs_sub (v - t.center.along a).value
      (v.value - (t.center.along a).value)
    have hnonneg := abs_nonneg (v.value - (t.center.along a).value)
    linarith
  have hproduct : |t.scale.value * (v - t.center.along a).value| ≤ 2 * m := by
    rw [abs_mul]
    calc |t.scale.value| * |(v - t.center.along a).value|
        ≤ |t.scale.value| * (2 * (|v.value| + t.center.size)) := by gcongr
      _ = 2 * (|t.scale.value| * (|v.value| + t.center.size)) := by ring
      _ ≤ 2 * m := by linarith [hv.le.2]
  have happrox := Scalar.mul_approximates ht.scale hfinite
  have himage := happrox.finite (Scalar.lt_of_room (hproduct.trans hroom))
  refine .rounded himage (by rw [sub_zero]; exact hproduct) (by rw [abs_zero, zero_add]; exact hroom) ?_
  have herror := (happrox.rounds himage).error_le
  have htiny : (2 : ℚ) ^ (-150 : ℤ) ≤ 2 ^ (-147 : ℤ) := by norm_num
  have hnonneg := abs_nonneg (t.scale.value * (v - t.center.along a).value)
  change |(t.image a v).value - _| ≤ _ at herror
  linarith

end Transform

namespace Scalar

/-- The number is finite and within a radius of the origin. -/
def Bounded (b : ℚ) (x : Scalar) : Prop := x.Holds fun v => |v| ≤ b

theorem Bounded.le {b : ℚ} {x : Scalar} (h : x.Bounded b) : |x.value| ≤ b := h.2

theorem Bounded.nonneg {b : ℚ} {x : Scalar} (h : x.Bounded b) : 0 ≤ b := (abs_nonneg _).trans h.2

theorem Bounded.mono {b e : ℚ} {x : Scalar} (h : x.Bounded b) (hbe : b ≤ e) : x.Bounded e :=
  ⟨h.1, h.2.trans hbe⟩

end Scalar

theorem Point.All.of_along {holds : Scalar → Prop} {p : Point} (h : ∀ a, holds (p.along a)) :
    p.All holds := ⟨h .horizontal, h .vertical⟩

namespace Icon

open Scalar (slack Around)
open Tolerance (base)

/-! ## §3. Where operands land. -/

theorem abs_base_le (f : Frame) (x : ℚ) : |base f x| ≤ |x| := by
  cases f with
  | absolute =>
    show |(0 : ℚ)| ≤ |x|
    rw [abs_zero]
    exact abs_nonneg x
  | relative => exact le_rfl

section Landing

variable {t : Transform} {a : Axis} {f g : Frame} {b m r e : ℚ} {pen place x offset v : Scalar}

/-- **A target** is rounded up to three times, whatever form is written. -/
theorem land_target (hx : x.Around r e) (hplace : place.Bounded b)
    (hroom : |r| + b + (e + 2 * slack) ≤ 2 ^ 126) :
    (land f place x (x - place)).Around r (e + 3 * slack) := by
  have hslack := Scalar.slack_nonneg
  have hb := hplace.nonneg
  have hbound := hplace.le
  cases f with
  | absolute => exact (hx.quantize (by linarith [abs_nonneg place.value])).mono (by linarith)
  | relative =>
    have htriangle := abs_sub r place.value
    have hdiff := hx.sub (.refl hplace.1) (by linarith)
    have hquantized := hdiff.quantize (by linarith)
    -- the place which was subtracted is added again
    have hsum := (Around.refl hplace.1).add hquantized (by rw [add_sub_cancel]; linarith)
    rw [add_sub_cancel] at hsum
    exact hsum.mono (by linarith)

/-- **An offset** is added to the pen with up to two roundings. -/
theorem land_offset (hoffset : offset.Around r e) (hpen : pen.Bounded b)
    (hroom : b + |r| + (e + 2 * slack) ≤ 2 ^ 126) :
    (land f pen (pen + offset) offset).Around (pen.value + r) (e + 2 * slack) := by
  have hslack := Scalar.slack_nonneg
  have hbound := hpen.le
  have htriangle := abs_add_le pen.value r
  cases f with
  | absolute =>
    have hsum := (Around.refl hpen.1).add hoffset (by linarith)
    exact (hsum.quantize (by linarith)).mono (by linarith)
  | relative =>
    have hquantized := hoffset.quantize (by linarith [abs_nonneg pen.value])
    exact ((Around.refl hpen.1).add hquantized (by linarith)).mono (by linarith)

section Operand

variable {forms : Scalar × Scalar} (ht : t.Finite) (hpen : pen.Bounded b) (hv : t.Carries m v)
  (hforms : forms = Pen.axisForms f pen (t.image a v) (t.scale * v))

include ht hpen hv hforms

/-- The target of an operand is around what it is counted from. -/
theorem target_around (hroom : b + 2 * m + 2 * slack ≤ 2 ^ 126) :
    forms.1.Around (base f pen.value) (2 * m + 2 * slack) := by
  subst hforms
  have hslack := Scalar.slack_nonneg
  have hm := hv.nonneg
  have hb := hpen.nonneg
  have hbound := hpen.le
  cases f with
  | absolute => exact (t.image_around ht hv (by linarith)).mono (by linarith)
  | relative =>
    have hoffset := t.scaled_around ht hv (by linarith)
    have hsum := (Around.refl hpen.1).add hoffset (by rw [add_zero]; linarith)
    rw [add_zero] at hsum
    exact hsum.mono (by linarith)

/-- **An operand lands** around what it is counted from. -/
theorem operand_around (hroom : b + 2 * m + 3 * slack ≤ 2 ^ 126) :
    (land g pen forms.1 forms.2).Around (base f pen.value) (2 * m + 4 * slack) := by
  subst hforms
  have hslack := Scalar.slack_nonneg
  have hm := hv.nonneg
  have hb := hpen.nonneg
  have hbound := hpen.le
  cases f with
  | absolute =>
    have himage := t.image_around (a := a) ht hv (by linarith)
    exact (land_target himage hpen (by rw [abs_zero]; linarith)).mono (by linarith)
  | relative =>
    have hoffset := t.scaled_around ht hv (by linarith)
    have hland := land_offset (f := g) hoffset hpen (by rw [abs_zero]; linarith)
    rw [add_zero] at hland
    exact hland.mono (by linarith)

end Operand

/-- The number is in the radius of the pen, even seen from the pen: a reflection
    at the pen can not leave the radius. -/
structure Guarded (b : ℚ) (pen x : Scalar) : Prop where
  finite : x.isFinite = true
  le : |x.value - pen.value| + |pen.value| ≤ b

theorem Guarded.mono (h : Guarded b pen x) (hbe : b ≤ e) : Guarded e pen x := ⟨h.finite, h.le.trans hbe⟩

/-- What an operand reaches is in a wider radius. -/
theorem bounded_of_around (hx : x.Around (base f pen.value) e) (hpen : pen.Bounded b) :
    x.Bounded (b + e) := by
  have hbase := abs_base_le f pen.value
  exact ⟨hx.1, hx.abs_le.trans (by linarith [hpen.le])⟩

/-- A control point which is an operand, seen from the target. -/
theorem guarded_of_around {target : Scalar} (hx : x.Around (base f pen.value) e)
    (htarget : target.Around (base f pen.value) e) (hpen : pen.Bounded b) :
    Guarded (b + 3 * e) target x := by
  have hbetween := abs_sub_le x.value (base f pen.value) target.value
  have hbound := (bounded_of_around htarget hpen).le
  have hat := htarget.error_le
  rw [abs_sub_comm] at hat
  exact ⟨hx.1, by linarith [hx.error_le]⟩

/-- A control point which was guarded by the pen is guarded by its target. -/
theorem Guarded.arrive {target : Scalar} (h : Guarded b pen x)
    (htarget : target.Around (base f pen.value) e) : Guarded (b + 2 * e) target x := by
  have hbetween := abs_sub_le x.value pen.value target.value
  have harrive : |pen.value - target.value| + |target.value| ≤ |pen.value| + 2 * e := by
    have hat := htarget.error_le
    cases f with
    | absolute =>
      have hat : |target.value - 0| ≤ e := hat
      rw [sub_zero] at hat
      linarith [abs_sub pen.value target.value]
    | relative =>
      have hat : |target.value - pen.value| ≤ e := hat
      have hsize := abs_sub_abs_le_abs_sub target.value pen.value
      rw [abs_sub_comm] at hat ⊢
      rw [abs_sub_comm] at hat
      linarith
  exact ⟨h.finite, by linarith [h.le]⟩

/-- **A reflected control point** is as far from the pen as the one it reflects. -/
theorem Guarded.reflect (h : Guarded b pen x) (hpen : pen.isFinite = true) (hroom : b ≤ 2 ^ 125) :
    Guarded (b + slack) pen (2.0 * pen - x) := by
  have hle := h.le
  have hnonneg := abs_nonneg (x.value - pen.value)
  have hdouble := Scalar.isFinite_double hpen (by norm_num at hroom ⊢; linarith)
  have hexact := (Scalar.double_exact hdouble).2
  have hreflected : 2 * pen.value - x.value = pen.value - (x.value - pen.value) := by ring
  have hdiff := (Around.refl hdouble).sub (.refl h.finite) (by
    rw [hexact, hreflected]
    linarith [abs_sub pen.value (x.value - pen.value)])
  rw [hexact] at hdiff
  refine ⟨hdiff.1, ?_⟩
  have hat := hdiff.error_le
  have htriangle := abs_sub_le (2.0 * pen - x : Scalar).value (2 * pen.value - x.value) pen.value
  have hback : |2 * pen.value - x.value - pen.value| = |x.value - pen.value| := by
    rw [show 2 * pen.value - x.value - pen.value = -(x.value - pen.value) by ring, abs_neg]
  linarith

/-- The pen, written as a control point. -/
theorem guarded_here (hpen : pen.Bounded b) (hroom : b + 2 * slack ≤ 2 ^ 126) :
    Guarded (b + 2 * slack) pen (land f pen pen 0.0) := by
  have hslack := Scalar.slack_nonneg
  have hbound := hpen.le
  obtain ⟨hzero, hvzero⟩ := Scalar.finite_zero
  have hland : (land f pen pen 0.0).Around pen.value (2 * slack) := by
    cases f with
    | absolute => exact ((Around.refl hpen.1).quantize (by linarith)).mono (by linarith)
    | relative =>
      have hquantized := (Around.refl hzero).quantize (by rw [hvzero, abs_zero]; norm_num)
      have hsum := (Around.refl hpen.1).add hquantized (by rw [hvzero, add_zero]; linarith)
      rw [hvzero, add_zero] at hsum
      exact hsum.mono (by linarith)
  exact ⟨hland.1, by linarith [hland.error_le]⟩

end Landing

end Icon

end VectorIcon

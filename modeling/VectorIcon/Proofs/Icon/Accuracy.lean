/-
  VectorIcon.Proofs.Icon.Accuracy
  ────────────────────────────────
  **HOW ACCURATE A LONG PATH IS.**

  Off the grid every operation rounds.  An absolute operand lands within
  340 units of 2^-24 of its image, whatever came before it; a relative one adds
  up to `400 + reach` units to the deviation of the pen, where the reach of a
  transform along an axis is the distance of its center from the source origin, in
  icon space: that far out the source coordinates themselves are coarse.  `steady`
  is the tolerance with these bounds, for points within 24 of the center of the
  icon.

  So the deviation does not grow along commands which start anew each time: those
  with absolute operands, except smooth quadratic curves
  (`DriftsLittle.of_startsAnew`).  It does grow with a run of relative operands, or
  of smooth quadratic curves, whose control points are reflected over and over; the
  path of `driftingDrawing` leaves the tolerance of a thousandth.  Every path stays
  within it as long as its drift along each axis times `400 + reach` is at most
  15000 (`Encoder.decode_encode_accurate`).
-/
import VectorIcon.Proofs.Icon.Angle
import VectorIcon.Proofs.Icon.Drift

namespace VectorIcon

/-! ## §1. Rounding in icon space. -/

namespace Transform

/-- How far the center of the view box is from the source origin along an axis, in
    icon space. -/
def reach (t : Transform) (a : Axis) : ℚ := |t.scale.value * (t.center.along a).value|

theorem reach_nonneg (t : Transform) (a : Axis) : 0 ≤ t.reach a := abs_nonneg _

end Transform

namespace Icon

variable {t : Transform} {a : Axis} {v w d pen place control x : Scalar}

/-- A coordinate of the pen, in or near the icon. -/
abbrev Placed (x : Scalar) : Prop := x.Holds fun r => |r| ≤ 25

/-- **The image of a point in the icon** is computed within 51 units. -/
theorem image_error (himage : (t.image a v).isFinite = true) (hinside : |(t.image a v).value| ≤ 24) :
    |(t.image a v).value - t.exact a v| ≤ 51 / 2 ^ 24 := by
  obtain ⟨hscale, hdiff⟩ := Scalar.isFinite_of_mul himage
  obtain ⟨hv, hcenter⟩ := Scalar.isFinite_of_sub hdiff
  have hsub := Scalar.sub_error hdiff hv hcenter
  have hmul := ((Scalar.mul_approximates hscale hdiff).rounds himage).error_le
  have htiny : (2 : ℚ) ^ (-150 : ℤ) ≤ 1 / 2 ^ 40 := by norm_num
  change |(t.image a v).value - _| ≤ _ at hmul
  unfold Transform.exact
  generalize (t.image a v).value = R at hinside hmul ⊢
  generalize (v - t.center.along a).value = δ at hsub hmul
  generalize v.value - (t.center.along a).value = δ' at hsub ⊢
  generalize t.scale.value = s at hmul ⊢
  -- the rounding of the difference, scaled
  have hscaled : |s * δ - s * δ'| ≤ |s * δ'| / 2 ^ 24 := by
    rw [← mul_sub, abs_mul, abs_mul, mul_div_assoc]
    exact mul_le_mul_of_nonneg_left hsub (abs_nonneg s)
  -- what is in the icon bounds what it was rounded from
  have hproduct := abs_sub_abs_le_abs_sub (s * δ) R
  have hexact := abs_sub_abs_le_abs_sub (s * δ') (s * δ)
  have htriangle := abs_sub_le R (s * δ) (s * δ')
  rw [abs_sub_comm] at hproduct hexact
  linarith

/-- So its exact image is hardly outside. -/
theorem exact_le (himage : (t.image a v).isFinite = true) (hinside : |(t.image a v).value| ≤ 24) :
    |t.exact a v| ≤ 24 + 51 / 2 ^ 24 := by
  have herror := image_error himage hinside
  have h := abs_sub_abs_le_abs_sub (t.exact a v) (t.image a v).value
  rw [abs_sub_comm] at h
  linarith

/-- **Quantizing** a number which is at most `b` costs four units of it. -/
theorem quantize_le (hx : x.isFinite = true) {b : ℚ} (hb : |x.value| ≤ b) :
    (quantizeCoordinate x).isFinite = true ∧
      |(quantizeCoordinate x).value - x.value| ≤ 4 * b / 2 ^ 24 + 1 / 2 ^ 40 := by
  obtain ⟨hf, herror⟩ := quantizeCoordinate_error hx
  have htiny : (2 : ℚ) ^ (-147 : ℤ) ≤ 1 / 2 ^ 40 := by norm_num
  refine ⟨hf, herror.trans ?_⟩
  have hsame : 4 * b / 2 ^ 24 = b / 2 ^ 22 := by ring
  have hdiv : |x.value| / 2 ^ 22 ≤ b / 2 ^ 22 := by gcongr
  linarith

/-- **An operand lands** within 285 units of its target, in either form. -/
theorem land_error {f : Frame} (hx : Placed x) (hplace : f = .relative → Placed place) :
    (land f place x (x - place)).isFinite = true ∧
      |(land f place x (x - place)).value - x.value| ≤ 285 / 2 ^ 24 := by
  obtain ⟨hfinite, hbound⟩ := hx
  cases f with
  | absolute =>
    obtain ⟨hf, herror⟩ := quantize_le hfinite hbound
    exact ⟨hf, herror.trans (by norm_num)⟩
  | relative =>
    obtain ⟨hplaced, hat⟩ := hplace rfl
    -- three roundings: the difference, its word, and the sum
    have hwide : |x.value - place.value| ≤ 50 := (abs_sub _ _).trans (by linarith)
    have hdiff := (Scalar.sub_approximates hfinite hplaced).finite (hwide.trans_lt (by norm_num))
    have hsub := Scalar.sub_error hdiff hfinite hplaced
    have hoffset : |(x - place).value| ≤ 51 := by
      have h := abs_sub_abs_le_abs_sub (x - place).value (x.value - place.value)
      linarith
    obtain ⟨hq, hquantize⟩ := quantize_le hdiff hoffset
    show (place + quantizeCoordinate (x - place)).isFinite = true ∧
      |(place + quantizeCoordinate (x - place)).value - x.value| ≤ _
    generalize quantizeCoordinate (x - place) = q at hq hquantize ⊢
    have hclose : |place.value + q.value - x.value| ≤ 255 / 2 ^ 24 := by
      have h := abs_add_le (q.value - (x - place).value)
        ((x - place).value - (x.value - place.value))
      have hsplit : q.value - (x - place).value + ((x - place).value - (x.value - place.value)) =
          place.value + q.value - x.value := by ring
      rw [hsplit] at h
      linarith
    have hsum : |place.value + q.value| ≤ 26 := by
      have h := abs_sub_abs_le_abs_sub (place.value + q.value) x.value
      linarith
    have hf := (Scalar.add_approximates hplaced hq).finite (hsum.trans_lt (by norm_num))
    have hadd := Scalar.add_error hf hplaced hq
    refine ⟨hf, ?_⟩
    have h := abs_sub_le (place + q).value (place.value + q.value) x.value
    linarith

/-! ## §2. Rounding in the source. -/

/-- **What the source rounds** counts by its distance from the origin. -/
theorem source_rounding {y : ℚ} (hexact : |t.exact a w| ≤ 25) (hreach : t.reach a ≤ 15000)
    (hw : |w.value - y| ≤ |y| / 2 ^ 24) : |t.scale.value * (w.value - y)| ≤ (26 + t.reach a) / 2 ^ 24 := by
  have hcenter : |t.scale.value * (t.center.along a).value| ≤ t.reach a := le_rfl
  have hnonneg := t.reach_nonneg a
  unfold Transform.exact at hexact
  generalize (t.center.along a).value = k at hexact hcenter
  generalize t.scale.value = s at hexact hcenter ⊢
  generalize w.value = z at hexact hw ⊢
  have hscaled : |s * (z - y)| ≤ |s * y| / 2 ^ 24 := by
    rw [abs_mul, abs_mul, mul_div_assoc]
    exact mul_le_mul_of_nonneg_left hw (abs_nonneg s)
  -- measured from the origin, the point is as far out as the center is, and a bit
  have hz : |s * z| ≤ 25 + t.reach a := by
    have hsplit : s * z = s * (z - k) + s * k := by ring
    rw [hsplit]
    exact (abs_add_le _ _).trans (by linarith)
  have hy : |s * y| ≤ |s * z| + |s * (z - y)| := by
    have hsplit : s * y = s * z - s * (z - y) := by ring
    rw [hsplit]
    exact abs_sub _ _
  linarith

/-- **A scaled offset** leads from image to image, up to the rounding in the
    source. -/
theorem offset_error (hv : v.isFinite = true) (hexactv : |t.exact a v| ≤ 25)
    (himage : (t.image a (v + d)).isFinite = true) (hinside : |(t.image a (v + d)).value| ≤ 24)
    (hreach : t.reach a ≤ 15000) :
    (t.scale * d).isFinite = true ∧ |(t.scale * d).value| ≤ 52 ∧
      |(t.scale * d).value - (t.exact a (v + d) - t.exact a v)| ≤ (78 + t.reach a) / 2 ^ 24 := by
  obtain ⟨hscale, hdiff⟩ := Scalar.isFinite_of_mul himage
  have hsumfinite := (Scalar.isFinite_of_sub hdiff).1
  have hd := (Scalar.isFinite_of_add hsumfinite).2
  have hexact := exact_le himage hinside
  have hsum := Scalar.add_error hsumfinite hv hd
  have hsource := source_rounding (hexact.trans (by norm_num)) hreach hsum
  have htiny : (2 : ℚ) ^ (-150 : ℤ) ≤ 1 / 2 ^ 40 := by norm_num
  -- the exact offset between the images
  have hoffset : t.scale.value * d.value = t.exact a (v + d) - t.exact a v -
      t.scale.value * ((v + d).value - (v.value + d.value)) := by
    unfold Transform.exact
    ring
  have hbetween := abs_sub (t.exact a (v + d)) (t.exact a v)
  have hwide : |t.scale.value * d.value| ≤ 51 := by
    rw [hoffset]
    exact (abs_sub _ _).trans (by linarith)
  have happrox := Scalar.mul_approximates hscale hd
  have hf := happrox.finite (hwide.trans_lt (by norm_num))
  have hmul := (happrox.rounds hf).error_le
  have hclose : |t.scale.value * d.value - (t.exact a (v + d) - t.exact a v)| ≤
      (26 + t.reach a) / 2 ^ 24 := by
    rw [hoffset, sub_sub_cancel_left, abs_neg]
    exact hsource
  have hsize := abs_sub_abs_le_abs_sub (t.scale * d).value (t.scale.value * d.value)
  have htotal := abs_sub_le (t.scale * d).value (t.scale.value * d.value)
    (t.exact a (v + d) - t.exact a v)
  exact ⟨hf, by linarith, by linarith⟩

/-- How far the pen may deviate where an offset is added to it. -/
abbrev Steady (t : Transform) (a : Axis) (pen v : Scalar) : Prop :=
  Placed pen ∧ |t.exact a v| ≤ 25 ∧ |t.deviation a pen v| ≤ 16100 / 2 ^ 24

/-- **What is added to the pen** leads to where it is meant to, up to its own error
    and one rounding. -/
theorem add_offset_error {q : Scalar} {x b : ℚ} (hpen : Steady t a pen v) (hq : q.isFinite = true)
    (hx : |x| ≤ 24 + 51 / 2 ^ 24) (hclose : |q.value - (x - t.exact a v)| ≤ b)
    (hb : b ≤ 15300 / 2 ^ 24) :
    Placed (pen + q) ∧ |(pen + q).value - x - (pen.value - t.exact a v)| ≤ b + 26 / 2 ^ 24 := by
  obtain ⟨⟨hplaced, -⟩, -, hdeviation⟩ := hpen
  unfold Transform.deviation at hdeviation
  -- without the rounding of the sum, the deviation of the pen and the error add up
  have hexact : |pen.value + q.value - (x + (pen.value - t.exact a v))| ≤ b := by
    have hsplit : pen.value + q.value - (x + (pen.value - t.exact a v)) =
        q.value - (x - t.exact a v) := by ring
    rw [hsplit]
    exact hclose
  have hsum : |pen.value + q.value| ≤ 49 / 2 := by
    have h := abs_sub_abs_le_abs_sub (pen.value + q.value) (x + (pen.value - t.exact a v))
    have h' := abs_add_le x (pen.value - t.exact a v)
    linarith
  have hf := (Scalar.add_approximates hplaced hq).finite (hsum.trans_lt (by norm_num))
  have hadd := Scalar.add_error hf hplaced hq
  have hsize := abs_sub_abs_le_abs_sub (pen + q).value (pen.value + q.value)
  refine ⟨⟨hf, by linarith⟩, ?_⟩
  rw [sub_sub]
  have h := abs_sub_le (pen + q).value (pen.value + q.value) (x + (pen.value - t.exact a v))
  linarith

/-- **The target of an offset** is in the icon, and deviates as the pen does. -/
theorem target_error (hpen : Steady t a pen v) (hv : v.isFinite = true)
    (himage : (t.image a (v + d)).isFinite = true) (hinside : |(t.image a (v + d)).value| ≤ 24)
    (hreach : t.reach a ≤ 15000) :
    Placed (pen + t.scale * d) ∧
      |t.deviation a (pen + t.scale * d) (v + d) - t.deviation a pen v| ≤ (104 + t.reach a) / 2 ^ 24 := by
  obtain ⟨hf, -, herror⟩ := offset_error hv hpen.2.1 himage hinside hreach
  obtain ⟨hplaced, hdeviates⟩ :=
    add_offset_error hpen hf (exact_le himage hinside) herror (by linarith)
  exact ⟨hplaced, hdeviates.trans (by linarith)⟩

/-- **A relative operand**, in either form, adds at most `400 + reach` units. -/
theorem relative_error {f : Frame} (hpen : Steady t a pen v) (hv : v.isFinite = true)
    (himage : (t.image a (v + d)).isFinite = true) (hinside : |(t.image a (v + d)).value| ≤ 24)
    (hreach : t.reach a ≤ 15000) :
    (land f pen (pen + t.scale * d) (t.scale * d)).isFinite = true ∧
      |t.deviation a (land f pen (pen + t.scale * d) (t.scale * d)) (v + d) - t.deviation a pen v| ≤
        (400 + t.reach a) / 2 ^ 24 := by
  cases f with
  | absolute =>
    -- the target is quantized
    obtain ⟨hplaced, htarget⟩ := target_error hpen hv himage hinside hreach
    obtain ⟨hq, hquantize⟩ := quantize_le hplaced.1 hplaced.2
    refine ⟨hq, ?_⟩
    show |(quantizeCoordinate (pen + t.scale * d)).value - t.exact a (v + d) -
      t.deviation a pen v| ≤ _
    unfold Transform.deviation at htarget ⊢
    rw [sub_sub] at htarget ⊢
    have h := abs_sub_le (quantizeCoordinate (pen + t.scale * d)).value (pen + t.scale * d).value
      (t.exact a (v + d) + (pen.value - t.exact a v))
    linarith
  | relative =>
    -- the offset is quantized
    obtain ⟨hf, hbound, herror⟩ := offset_error hv hpen.2.1 himage hinside hreach
    obtain ⟨hq, hquantize⟩ := quantize_le hf hbound
    have hclose : |(quantizeCoordinate (t.scale * d)).value - (t.exact a (v + d) - t.exact a v)| ≤
        (287 + t.reach a) / 2 ^ 24 := by
      have h := abs_sub_le (quantizeCoordinate (t.scale * d)).value (t.scale * d).value
        (t.exact a (v + d) - t.exact a v)
      linarith
    obtain ⟨hplaced, hdeviates⟩ :=
      add_offset_error hpen hq (exact_le himage hinside) hclose (by linarith)
    exact ⟨hplaced.1, hdeviates.trans (by linarith)⟩

/-- **A relative move** counts from the start of the sub-path, and adds no more. -/
theorem move_error {f : Frame} {start : Scalar} (hpen : Steady t a pen v) (hstart : Placed start)
    (hv : v.isFinite = true) (himage : (t.image a (v + d)).isFinite = true)
    (hinside : |(t.image a (v + d)).value| ≤ 24) (hreach : t.reach a ≤ 15000) :
    (land f start (pen + t.scale * d) (pen + t.scale * d - start)).isFinite = true ∧
      |t.deviation a (land f start (pen + t.scale * d) (pen + t.scale * d - start)) (v + d) -
        t.deviation a pen v| ≤ (400 + t.reach a) / 2 ^ 24 := by
  obtain ⟨hplaced, htarget⟩ := target_error hpen hv himage hinside hreach
  obtain ⟨hf, hland⟩ := land_error (f := f) hplaced fun _ => hstart
  refine ⟨hf, ?_⟩
  unfold Transform.deviation at htarget ⊢
  rw [sub_sub] at htarget ⊢
  have h := abs_sub_le (land f start (pen + t.scale * d) (pen + t.scale * d - start)).value
    (pen + t.scale * d).value (t.exact a (v + d) + (pen.value - t.exact a v))
  linarith

/-- The pen as a control point. -/
theorem here_error {f : Frame} (hpen : Placed pen) :
    (land f pen pen 0.0).isFinite = true ∧ |(land f pen pen 0.0).value - pen.value| ≤ 110 / 2 ^ 24 := by
  obtain ⟨hfinite, hbound⟩ := hpen
  cases f with
  | absolute =>
    obtain ⟨hq, hquantize⟩ := quantize_le hfinite hbound
    exact ⟨hq, hquantize.trans (by norm_num)⟩
  | relative =>
    obtain ⟨hzero, hvzero⟩ := Scalar.finite_zero
    have hkept : quantizeCoordinate 0.0 = 0.0 :=
      quantizeCoordinate_grid hzero (n := 0) (by rw [hvzero]; norm_num) (by norm_num) (by norm_num)
    have hland : (land .relative pen pen 0.0).Agrees pen := by
      show (pen + quantizeCoordinate 0.0).Agrees pen
      rw [hkept]
      exact .add_zero hzero hvzero
    refine ⟨hland.isFinite.trans hfinite, ?_⟩
    rw [hland.value, sub_self, abs_zero]
    norm_num

/-- **A reflected control point** deviates as the pen and the control point do,
    and by at most `110 + reach` units more. -/
theorem reflect_error (hpen : Placed pen) (hcontrol : Placed control)
    (himage : (t.image a (2.0 * v - w)).isFinite = true)
    (hinside : |(t.image a (2.0 * v - w)).value| ≤ 24) (hreach : t.reach a ≤ 15000) :
    (2.0 * pen - control : Scalar).isFinite = true ∧
      |t.deviation a (2.0 * pen - control) (2.0 * v - w) -
        (2 * t.deviation a pen v - t.deviation a control w)| ≤ (110 + t.reach a) / 2 ^ 24 := by
  obtain ⟨hplaced, hbound⟩ := hpen
  obtain ⟨hcfinite, hcbound⟩ := hcontrol
  -- on the side of the icon
  have hpendouble := Scalar.isFinite_double hplaced (hbound.trans_lt (by norm_num))
  have hpentwice := (Scalar.double_exact hpendouble).2
  have hwide : |(2.0 * pen : Scalar).value - control.value| ≤ 75 := by
    rw [hpentwice]
    refine (abs_sub _ _).trans ?_
    rw [abs_mul, abs_two]
    linarith
  have hf := (Scalar.sub_approximates hpendouble hcfinite).finite (hwide.trans_lt (by norm_num))
  have hicon := Scalar.sub_error hf hpendouble hcfinite
  -- on the side of the source
  obtain ⟨-, hdiff⟩ := Scalar.isFinite_of_mul himage
  obtain ⟨hreflected, -⟩ := Scalar.isFinite_of_sub hdiff
  obtain ⟨hvdouble, hw⟩ := Scalar.isFinite_of_sub hreflected
  have hsub := Scalar.sub_error hreflected hvdouble hw
  have hsource := source_rounding ((exact_le himage hinside).trans (by norm_num)) hreach hsub
  rw [(Scalar.double_exact hvdouble).2] at hsource
  refine ⟨hf, ?_⟩
  have hsplit : t.deviation a (2.0 * pen - control) (2.0 * v - w) -
      (2 * t.deviation a pen v - t.deviation a control w) =
      (2.0 * pen - control : Scalar).value - ((2.0 * pen : Scalar).value - control.value) -
        t.scale.value * ((2.0 * v - w : Scalar).value - (2 * v.value - w.value)) := by
    unfold Transform.deviation Transform.exact
    rw [hpentwice]
    ring
  rw [hsplit]
  exact (abs_sub _ _).trans (by linarith)

/-! ## §3. A tolerance of a thousandth. -/

/-- Everything is in or near the icon, and the pen deviates by a limited number of
    offsets. -/
def steady (t : Transform) : Tolerance where
  number _ := True
  source a v := |t.scale.value * (v - (t.center.along a).value)| ≤ 25
  inside v := |v| ≤ 24
  radius v := |v| ≤ 24
  angle r := r.isFinite = true
  placed v := |v| ≤ 25
  close a b := (a - b).abs < 1e-3
  turned a b := (a - b).abs < 1e-3
  landing := 340 / 2 ^ 24
  offset a := (400 + t.reach a) / 2 ^ 24
  reflection a := (110 + t.reach a) / 2 ^ 24
  limit a n := n * (400 + t.reach a) ≤ 15000

/-- Numbers are close to a thousandth which are so without rounding. -/
theorem close_of_value {x y : Scalar} (hx : x.isFinite = true) (hy : y.isFinite = true)
    (h : |x.value - y.value| ≤ 16500 / 2 ^ 24) : (x - y).abs < 1e-3 := by
  have heps : Scalar.isFinite 1e-3 = true ∧ (1e-3 : Scalar).value = 8589935 / 2 ^ 33 :=
    Scalar.literal .positive 0x83126f (-33) ⟨by norm_num, rfl⟩
      (by norm_num [Float.Model.UnpackedFloat.Sign.apply])
  -- the comparison rounds once more, which the bound leaves room for
  have hf := (Scalar.sub_approximates hx hy).finite (h.trans_lt (by norm_num))
  have herror := Scalar.sub_error hf hx hy
  have hsize := abs_sub_abs_le_abs_sub (x - y).value (x.value - y.value)
  have habs := Scalar.isFinite_abs (x - y)
  rw [hf] at habs
  rw [Scalar.lt_iff habs heps.1, Scalar.value_abs, heps.2]
  linarith

theorem reach_le {n : ℕ} (hn : 1 ≤ n) (hlimit : (n : ℚ) * (400 + t.reach a) ≤ 15000) :
    t.reach a ≤ 15000 := by
  have hnonneg := t.reach_nonneg a
  have hcast : (1 : ℚ) ≤ n := by exact_mod_cast hn
  have hmul := mul_le_mul_of_nonneg_right hcast (show 0 ≤ 400 + t.reach a by linarith)
  linarith

/-- Deviations in the limit are at most 16020 units. -/
theorem deviation_le {n : ℕ} (hlimit : (n : ℚ) * (400 + t.reach a) ≤ 15000) {y : ℚ}
    (hy : |y| ≤ 3 * (steady t).landing + n * (steady t).offset a) : |y| ≤ 16020 / 2 ^ 24 := by
  have hy : |y| ≤ 3 * (340 / 2 ^ 24) + n * ((400 + t.reach a) / 2 ^ 24) := hy
  have hsame : (n : ℚ) * ((400 + t.reach a) / 2 ^ 24) = n * (400 + t.reach a) / 2 ^ 24 := by ring
  rw [hsame] at hy
  linarith

/-- **The bounds of a thousandth.** -/
theorem steady_bounds (t : Transform) : (steady t).Bounds t where
  landing_nonneg := by
    show (0 : ℚ) ≤ 340 / 2 ^ 24
    positivity
  reflection_nonneg a := by
    have h := t.reach_nonneg a
    show (0 : ℚ) ≤ (110 + t.reach a) / 2 ^ 24
    positivity
  reflection_le a := by
    show (110 + t.reach a) / 2 ^ 24 ≤ (400 + t.reach a) / 2 ^ 24
    linarith
  landing_le a := by
    have h := t.reach_nonneg a
    show 2 * (340 / 2 ^ 24) + (110 + t.reach a) / 2 ^ 24 ≤ 2 * ((400 + t.reach a) / 2 ^ 24)
    linarith
  limit_zero a := by
    show ((0 : ℕ) : ℚ) * (400 + t.reach a) ≤ 15000
    rw [Nat.cast_zero, zero_mul]
    norm_num
  near := by
    intro a n pen v hpen hv hinside hn hy
    have hdeviation := deviation_le hn hy
    have herror := image_error hinside.1 hinside.2
    have hexact := exact_le hinside.1 hinside.2
    unfold Transform.deviation at hdeviation
    have hsize := abs_sub_abs_le_abs_sub pen.value (t.exact a v)
    have hclose := abs_sub_le pen.value (t.exact a v) (t.image a v).value
    rw [abs_sub_comm (t.exact a v)] at hclose
    refine ⟨?_, close_of_value hpen hinside.1 (by linarith)⟩
    show |pen.value| ≤ 25
    linarith
  absolute := by
    intro a f place v _ hinside hplace
    have herror := image_error hinside.1 hinside.2
    have hexact := exact_le hinside.1 hinside.2
    have hbound : |(t.image a v).value| ≤ 24 := hinside.2
    obtain ⟨hf, hland⟩ := land_error ⟨hinside.1, by linarith⟩ hplace
    have hv := (Scalar.isFinite_of_sub (Scalar.isFinite_of_mul hinside.1).2).1
    refine ⟨⟨hv, hexact.trans (by norm_num)⟩, hf, ?_⟩
    have h := abs_sub_le (land f place (t.image a v) (t.image a v - place)).value (t.image a v).value
      (t.exact a v)
    show |_ - _| ≤ (340 / 2 ^ 24 : ℚ)
    linarith
  relative := by
    intro a f n pen v d _ hinside hpen hv hn hlimit hy
    have hsteady : Steady t a pen v := ⟨hpen, hv.2, (deviation_le hlimit hy).trans (by norm_num)⟩
    have hsum := (Scalar.isFinite_of_sub (Scalar.isFinite_of_mul hinside.1).2).1
    have hexact := exact_le hinside.1 hinside.2
    exact ⟨⟨hsum, hexact.trans (by norm_num)⟩,
      relative_error hsteady hv.1 hinside.1 hinside.2 (reach_le hn hlimit)⟩
  move := by
    intro a f n pen start v d _ hinside hpen hstart hv hn hlimit hy
    have hsteady : Steady t a pen v := ⟨hpen, hv.2, (deviation_le hlimit hy).trans (by norm_num)⟩
    have hsum := (Scalar.isFinite_of_sub (Scalar.isFinite_of_mul hinside.1).2).1
    have hexact := exact_le hinside.1 hinside.2
    exact ⟨⟨hsum, hexact.trans (by norm_num)⟩,
      move_error hsteady hstart hv.1 hinside.1 hinside.2 (reach_le hn hlimit)⟩
  here := by
    intro f pen hpen
    obtain ⟨hf, herror⟩ := here_error (f := f) hpen
    exact ⟨hf, herror.trans (by norm_num [steady])⟩
  reflect := by
    intro a n pen control v w hpen hcontrol _ _ hinside hn hlimit
    have hsum := (Scalar.isFinite_of_sub (Scalar.isFinite_of_mul hinside.1).2).1
    have hexact := exact_le hinside.1 hinside.2
    exact ⟨⟨hsum, hexact.trans (by norm_num)⟩,
      reflect_error hpen hcontrol hinside.1 hinside.2 (reach_le hn hlimit)⟩
  radii := by
    intro v _ hradius
    have hbound : |(t.scale * v).value| ≤ 24 := hradius.2
    obtain ⟨hf, herror⟩ := quantize_le hradius.1 hbound
    exact close_of_value hf hradius.1 (herror.trans (by norm_num))
  rotation := by
    intro r hr
    obtain ⟨hf, herror⟩ := rotation_error hr
    exact close_of_value hf (Scalar.withinTurn_bounds hr).1 (herror.trans (by norm_num))

/-! ## §4. Drawings. -/

/-- All points of the reference and all radii are within 24 of the center. -/
def InIcon (t : Transform) (cs : List Command) : Prop :=
  ∀ g ∈ reference t cs, g.All (fun x => -24.0 ≤ x ∧ x ≤ 24.0) fun r => -24.0 ≤ r ∧ r ≤ 24.0

instance InIcon.decidable (t : Transform) (cs : List Command) : Decidable (InIcon t cs) :=
  inferInstanceAs (Decidable (∀ g ∈ reference t cs, _))

/-- Wherever the path has got to, the relative operands which count there along an
    axis are few for the reach of the transform. -/
def DriftsLittle (t : Transform) (cs : List Command) : Prop :=
  ∀ a, Drift.zero.Within (fun n => (n : ℚ) * (400 + t.reach a) ≤ 15000) a cs.tail

/-- A command which starts anew: its operands are absolute, and what it reflects is
    an operand.  A smooth quadratic curve may reflect a point which was reflected
    itself. -/
def StartsAnew (t : Transform) : Command → Prop
  | .moveTo f _ | .lineTo f _ | .horizontalTo f _ | .verticalTo f _ | .quadTo f _ _
  | .cubicTo f _ _ _ | .arcTo f _ _ => f = .absolute
  | .smoothCubicTo f _ _ => f = .absolute ∧ ∀ a, t.reach a ≤ 14600
  | .smoothQuadTo _ _ => False
  | .close => True

/-- Nothing counts but a control point which is an operand. -/
structure Drift.Anew (d : Drift) : Prop where
  position : d.position = 0
  start : d.start = 0
  reflected : d.reflected .cubic ≤ 1

/-- **A command which starts anew** leaves nothing that counts, and its own points
    are in the limit. -/
theorem Drift.Anew.step {d : Drift} (h : d.Anew) {c : Command} (hc : StartsAnew t c) :
    (d.step a c).Anew ∧ (d.implied c : ℚ) * (400 + t.reach a) ≤ 15000 := by
  obtain ⟨hposition, hstart, hreflected⟩ := h
  have hzero : ((0 : ℕ) : ℚ) * (400 + t.reach a) ≤ 15000 := (steady_bounds t).limit_zero a
  cases c with
  | moveTo f =>
    obtain rfl : f = .absolute := hc
    exact ⟨⟨rfl, rfl, Nat.zero_le _⟩, hzero⟩
  | lineTo f | arcTo f | quadTo f =>
    obtain rfl : f = .absolute := hc
    exact ⟨⟨rfl, hstart, Nat.zero_le _⟩, hzero⟩
  | horizontalTo f | verticalTo f =>
    obtain rfl : f = .absolute := hc
    refine ⟨⟨?_, hstart, Nat.zero_le _⟩, hzero⟩
    -- the coordinate along the line starts anew, and the other one stays
    show ite _ 0 d.position = 0
    rw [hposition, ite_self]
  | cubicTo f =>
    obtain rfl : f = .absolute := hc
    exact ⟨⟨rfl, hstart, le_rfl⟩, hzero⟩
  | smoothCubicTo f =>
    obtain ⟨rfl, hreach⟩ := hc
    refine ⟨⟨rfl, hstart, le_rfl⟩, ?_⟩
    have hone : (d.reflected .cubic : ℚ) ≤ 1 := by exact_mod_cast hreflected
    have hmul := mul_le_mul_of_nonneg_right hone (show 0 ≤ 400 + t.reach a by
      linarith [t.reach_nonneg a])
    show (d.reflected .cubic : ℚ) * _ ≤ _
    linarith [hreach a]
  | smoothQuadTo => cases hc
  | close => exact ⟨⟨hstart, hstart, Nat.zero_le _⟩, hzero⟩

/-- **Commands which start anew do not drift**, however many there are. -/
theorem DriftsLittle.of_startsAnew {cs : List Command} (h : ∀ c ∈ cs.tail, StartsAnew t c) :
    DriftsLittle t cs := by
  intro a
  generalize cs.tail = cs at h
  have hzero : Drift.zero.Anew := ⟨rfl, rfl, Nat.zero_le _⟩
  -- the induction is on the commands which are left; nothing counts before any of them
  generalize Drift.zero = d at hzero
  induction cs generalizing d with
  | nil => exact nofun
  | cons c cs ih =>
    obtain ⟨hc, hcs⟩ := List.forall_mem_cons.1 h
    obtain ⟨hnext, himplied⟩ := hzero.step (a := a) hc
    refine List.forall_mem_cons.2 ⟨himplied, List.forall_mem_cons.2 ⟨?_, ih hcs _ hnext⟩⟩
    rw [hnext.position]
    exact (steady_bounds t).limit_zero a

theorem isCloseTo_of_both {eps : Scalar} {p q : Point} (h : p.Both (fun a b => (a - b).abs < eps) q) :
    p.isCloseTo q eps = true := by
  unfold Point.isCloseTo
  rw [decide_eq_true h.1, decide_eq_true h.2]
  rfl

/-- Segments which match are close. -/
theorem segmentClose_of_matches {g g' : Segment} (h : (steady t).Matches g g') :
    segmentClose 1e-3 g g' = true := by
  have hzero : ((0.0 : Scalar) - 0.0).abs < 1e-3 := by decide +kernel
  unfold segmentClose sameKind segmentPoints
  cases h with
  | move h | line h | close h => simp [isCloseTo_of_both h]
  | quad hc hp => simp [isCloseTo_of_both hc, isCloseTo_of_both hp]
  | cubic hb hc hp => simp [isCloseTo_of_both hb, isCloseTo_of_both hc, isCloseTo_of_both hp]
  | arc hr ha hp =>
    -- a rotation is compared as a point whose other coordinate is zero
    have hrotation : Point.isCloseTo ⟨_, 0.0⟩ ⟨_, 0.0⟩ 1e-3 = true :=
      isCloseTo_of_both ⟨ha, hzero⟩
    simp [isCloseTo_of_both hr, isCloseTo_of_both hp, hrotation]

theorem segmentsClose_of_matches {gs gs' : List Segment}
    (h : List.Forall₂ (steady t).Matches gs gs') : segmentsClose 1e-3 gs gs' = true := by
  unfold segmentsClose
  rw [h.length_eq, beq_self_eq_true, Bool.true_and, List.all_eq_true]
  intro p hp
  exact segmentClose_of_matches ((List.forall₂_iff_zip.1 h).2 hp)

/-- **A path in the icon which drifts little is shown close to its reference.** -/
theorem shows_close {t : Transform} {cs : List Command} {painted : PaintedPath}
    (h : Shows t cs painted) (hfinite : ∀ c ∈ cs, Path.Finite c) (hinside : InIcon t cs)
    (hdrift : DriftsLittle t cs) : segmentsClose 1e-3 painted.segments (reference t cs) = true := by
  obtain ⟨h24, hv24⟩ := Scalar.finite_24
  have hm24 := Scalar.finite_neg Scalar.finite_24
  have hbound (x : Scalar) (hx : -24.0 ≤ x ∧ x ≤ 24.0) : x.Holds fun r => |r| ≤ 24 := by
    have hf := Scalar.isFinite_of_between hm24.1 h24 hx.1 hx.2
    rw [Scalar.le_iff hm24.1 hf, Scalar.le_iff hf h24, hm24.2, hv24] at hx
    exact ⟨hf, abs_le.2 hx⟩
  refine segmentsClose_of_matches ((steady t).shows_matches (steady_bounds t) ?_ h
    (fun c hc => (hfinite c hc).imp (fun _ _ => trivial) fun _ hr => hr) hdrift
    fun g hg => (hinside g hg).imp hbound hbound)
  intro a b c hab hbc
  show (a - c).abs < 1e-3
  rw [(hab.sub (.refl c)).abs_eq]
  exact hbc

/-- **The segments of an icon are within a thousandth of their reference**, for
    every path whose reference is in the icon, if its commands start anew each
    time, however many there are, or if it drifts little. -/
theorem Encoder.decode_encode_accurate (e : Encoder) (d : Drawing) (bytes : List UInt8)
    (h : e.encode d = .ok bytes) :
    ∃ (content : Content) (css : List (List Command)),
      decode bytes = .ok content ∧ d.paths.mapM (fun p => Path.parse p.data) = .ok css ∧
      List.Forall₂
        (fun painted cs => InIcon (Transform.fit d.canvas.viewBox e.outputSize) cs →
          (∀ c ∈ cs.tail, StartsAnew (Transform.fit d.canvas.viewBox e.outputSize) c) ∨
            DriftsLittle (Transform.fit d.canvas.viewBox e.outputSize) cs →
          segmentsClose 1e-3 painted.segments
            (reference (Transform.fit d.canvas.viewBox e.outputSize) cs) = true)
        content.paths (css.filter (!·.isEmpty)) := by
  obtain ⟨css, content, hcss, hcontent, hshows⟩ := e.decode_encode h
  refine ⟨content, css, hcontent, hcss, ?_⟩
  have hfinite := Path.parse_all_finite hcss
  rw [List.forall₂_iff_zip] at hshows ⊢
  refine ⟨hshows.1.symm, fun {painted cs} hmem => ?_⟩
  have hboth : (cs, painted) ∈ (css.filter (!·.isEmpty)).zip content.paths := by
    rw [← List.zip_swap]
    exact List.mem_map.2 ⟨(painted, cs), hmem, rfl⟩
  have hcommands := hfinite cs (List.mem_filter.1 (List.of_mem_zip hmem).2).1
  rintro hinside (hanew | hdrift)
  · exact shows_close (hshows.2 hboth) hcommands hinside (.of_startsAnew hanew)
  · exact shows_close (hshows.2 hboth) hcommands hinside hdrift

/-- A drawing off the grid with every command, in both notations. -/
def steadyDrawing : Drawing where
  canvas := ⟨24.0, 24.0, ⟨0.0, 0.0, 24.0, 24.0⟩⟩
  paths :=
    [⟨"M3.3 3.7a2 1 30 0 1 4 4.1q1 1 2 .3t2 0L5 6.6c.1 .2 .3 .4 .7 .9s.5 .5 1 1h.3v.7", .default⟩,
     ⟨"m3.3 8.1A2 1.1 0 1 0 5 6.3Q1.1 2 3 4.7T5 3S8 7 9 7.7C5 8 6.1 9 7 8.8zm1.1 .7H9.1V2zl.1 .7", .default⟩]

theorem steadyDrawing_reach (a : Axis) :
    (Transform.fit steadyDrawing.canvas.viewBox 48.0).reach a = 24 := by
  have hscale : ((Transform.fit steadyDrawing.canvas.viewBox 48.0).scale == 2.0) = true := by
    decide +kernel
  have hcenter : (((Transform.fit steadyDrawing.canvas.viewBox 48.0).center.along a) == 12.0) = true := by
    cases a <;> decide +kernel
  have h12 : Scalar.isFinite 12.0 = true ∧ (12.0 : Scalar).value = 12 :=
    Scalar.literal .positive 0xc00000 (-20) ⟨by norm_num, rfl⟩
      (by norm_num [Float.Model.UnpackedFloat.Sign.apply])
  unfold Transform.reach
  rw [Scalar.Agrees.value (.inl hscale), Scalar.Agrees.value (.inl hcenter), h12.2,
    Scalar.finite_2.2]
  norm_num

theorem Encoder.decode_encode_accurate_steadyDrawing :
    ∃ bytes, Encoder.encode ⟨48.0, .black⟩ steadyDrawing = .ok bytes ∧
      ∃ (content : Content) (css : List (List Command)),
        decode bytes = .ok content ∧
        steadyDrawing.paths.mapM (fun p => Path.parse p.data) = .ok css ∧
        List.Forall₂
          (fun painted cs => segmentsClose 1e-3 painted.segments
            (reference (Transform.fit steadyDrawing.canvas.viewBox 48.0) cs) = true)
          content.paths (css.filter (!·.isEmpty)) := by
  have hsome : (Encoder.encode ⟨48.0, .black⟩ steadyDrawing).toOption.isSome = true := by
    decide +kernel
  have hpaths : ∀ cs ∈ (steadyDrawing.paths.mapM fun p => Path.parse p.data).toOption.getD [],
      InIcon (Transform.fit steadyDrawing.canvas.viewBox 48.0) cs ∧
        (∀ n ∈ Drift.zero.counts .horizontal cs.tail, n ≤ 35) ∧
        ∀ n ∈ Drift.zero.counts .vertical cs.tail, n ≤ 35 := by
    decide +kernel
  obtain ⟨bytes, h⟩ := exists_encode hsome
  obtain ⟨content, css, hcontent, hcss, haccurate⟩ :=
    decode_encode_accurate ⟨48.0, .black⟩ steadyDrawing bytes h
  refine ⟨bytes, h, content, css, hcontent, hcss, ?_⟩
  rw [hcss] at hpaths
  rw [List.forall₂_iff_zip] at haccurate ⊢
  refine ⟨haccurate.1, fun {painted cs} hmem => ?_⟩
  obtain ⟨hinside, hhorizontal, hvertical⟩ := hpaths cs (List.mem_filter.1 (List.of_mem_zip hmem).2).1
  refine haccurate.2 hmem hinside (.inr fun a n hn => ?_)
  have hcount : (n : ℚ) ≤ 35 := by
    cases a with
    | horizontal => exact_mod_cast hhorizontal n hn
    | vertical => exact_mod_cast hvertical n hn
  rw [steadyDrawing_reach]
  linarith

/-- A path of eleven short steps, in a view box far from the source origin. -/
def driftingDrawing : Drawing where
  canvas := ⟨24.0, 24.0, ⟨2000.0, 0.0, 24.0, 24.0⟩⟩
  paths := [⟨"M2001 12h.3 .3 .3 .3 .3 .3 .3 .3 .3 .3 .3", .default⟩]

/-- **Accuracy degrades with the length of a path**: to be in the icon is not
    enough. -/
theorem Encoder.driftingDrawing_not_close :
    ¬ ∀ (d : Drawing) (bytes : List UInt8) (content : Content) (css : List (List Command)),
      Encoder.encode ⟨48.0, .black⟩ d = .ok bytes → decode bytes = .ok content →
      d.paths.mapM (fun p => Path.parse p.data) = .ok css →
      (∀ cs ∈ css, InIcon (Transform.fit d.canvas.viewBox 48.0) cs) →
      List.Forall₂
        (fun painted cs => segmentsClose 1e-3 painted.segments
          (reference (Transform.fit d.canvas.viewBox 48.0) cs) = true)
        content.paths (css.filter (!·.isEmpty)) := by
  intro hclaim
  have hsome : (Encoder.encode ⟨48.0, .black⟩ driftingDrawing).toOption.isSome = true := by
    decide +kernel
  have hinside : ∀ cs ∈ (driftingDrawing.paths.mapM fun p => Path.parse p.data).toOption.getD [],
      InIcon (Transform.fit driftingDrawing.canvas.viewBox 48.0) cs := by
    decide +kernel
  have hfar : ((((Encoder.encode ⟨48.0, .black⟩ driftingDrawing).toOption.bind fun bytes =>
        (decode bytes).toOption).elim [] Content.paths).zip
      (((driftingDrawing.paths.mapM fun p => Path.parse p.data).toOption.getD []).filter
        (!·.isEmpty))).all (fun p => segmentsClose 1e-3 p.1.segments
          (reference (Transform.fit driftingDrawing.canvas.viewBox 48.0) p.2)) = false := by
    decide +kernel
  obtain ⟨bytes, hbytes⟩ := exists_encode hsome
  obtain ⟨css, content, hcss, hcontent, -⟩ := decode_encode hbytes
  have hread : ((Encoder.encode ⟨48.0, .black⟩ driftingDrawing).toOption.bind fun bytes =>
      (decode bytes).toOption) = some content := by
    rw [hbytes]
    show (decode bytes).toOption = some content
    rw [hcontent]
    rfl
  rw [hcss] at hinside
  rw [hread, hcss] at hfar
  have hclose := hclaim driftingDrawing bytes content css hbytes hcontent hcss hinside
  refine Bool.false_ne_true (hfar.symm.trans (List.all_eq_true.2 fun p hmem => ?_))
  exact (List.forall₂_iff_zip.1 hclose).2 hmem

end Icon

end VectorIcon

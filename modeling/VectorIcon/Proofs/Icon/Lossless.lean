/-
  VectorIcon.Proofs.Icon.Lossless
  ────────────────────────────────
  **NOTHING IS LOST ON THE GRID.**

  Multiples of 1/64 which are not too large are added, subtracted, reflected and
  scaled by a power of two without rounding, and quantizing keeps those which a
  short word reaches.  So the deviation of a path on the grid is zero from its
  first move to its last close: `lossless` is a tolerance whose bounds are all
  zero, and by `Tolerance.shows_matches` the segments of an icon are equal to
  their reference, for any number of commands (`Encoder.decode_encode_exact`).
-/
import VectorIcon.Proofs.Icon.Drift

namespace VectorIcon

/-! ## §1. The grid. -/

/-- A multiple of 1/64. -/
def OnLattice (v : ℚ) : Prop := ∃ n : ℤ, v = n / 64

namespace OnLattice

variable {v w : ℚ}

theorem add (hv : OnLattice v) (hw : OnLattice w) : OnLattice (v + w) := by
  obtain ⟨m, rfl⟩ := hv
  obtain ⟨n, rfl⟩ := hw
  refine ⟨m + n, ?_⟩
  push_cast
  ring

theorem sub (hv : OnLattice v) (hw : OnLattice w) : OnLattice (v - w) := by
  obtain ⟨m, rfl⟩ := hv
  obtain ⟨n, rfl⟩ := hw
  refine ⟨m - n, ?_⟩
  push_cast
  ring

theorem two_pow_mul (hv : OnLattice v) (k : ℕ) : OnLattice (2 ^ k * v) := by
  obtain ⟨n, rfl⟩ := hv
  refine ⟨2 ^ k * n, ?_⟩
  push_cast
  ring

/-- A multiple of 1/64 which is not too large has 24 bits, whatever power of two
    it is multiplied by. -/
theorem short (hv : OnLattice v) (hsmall : |v| < 2 ^ 18) (k : ℕ) : Short (2 ^ k * v) := by
  obtain ⟨n, rfl⟩ := hv
  refine ⟨n, k - 6, ?_, by omega, ?_⟩
  · rw [abs_div, div_lt_iff₀ (by norm_num)] at hsmall
    norm_num at hsmall
    exact_mod_cast hsmall
  · rw [zpow_sub₀ (by norm_num), zpow_natCast]
    norm_num
    ring

end OnLattice

namespace Scalar

variable {a b : Scalar}

/-- Sums and differences on the lattice are exact. -/
theorem add_lattice (ha : isFinite a = true) (hb : isFinite b = true) (hva : OnLattice a.value)
    (hvb : OnLattice b.value) (hsmall : |a.value + b.value| < 2 ^ 18) :
    isFinite (a + b) = true ∧ (a + b).value = a.value + b.value := by
  have hshort := (hva.add hvb).short hsmall 0
  rw [pow_zero, one_mul] at hshort
  exact add_exact ha hb hshort (hsmall.trans (by norm_num))

theorem sub_lattice (ha : isFinite a = true) (hb : isFinite b = true) (hva : OnLattice a.value)
    (hvb : OnLattice b.value) (hsmall : |a.value - b.value| < 2 ^ 18) :
    isFinite (a - b) = true ∧ (a - b).value = a.value - b.value := by
  have hshort := (hva.sub hvb).short hsmall 0
  rw [pow_zero, one_mul] at hshort
  exact sub_exact ha hb hshort (hsmall.trans (by norm_num))

/-- Scaling on the lattice is exact as long as it is finite. -/
theorem mul_lattice {k : ℕ} (hscale : a.value = 2 ^ k) (h : isFinite (a * b) = true)
    (hvb : OnLattice b.value) (hsmall : |b.value| < 2 ^ 18) : (a * b).value = 2 ^ k * b.value := by
  obtain ⟨ha, hb⟩ := isFinite_of_mul h
  have hrounds := (mul_approximates ha hb).rounds h
  rw [hscale] at hrounds
  exact hrounds.exact (hvb.short hsmall k)

end Scalar

/-- A multiple of 1/64 below 1024 in magnitude. -/
def OnGrid (x : Scalar) : Prop := x.isFinite = true ∧ ∃ n : ℤ, x.value = n / 64 ∧ |n| < 65536

/-- Whether a number is on the grid can be computed. -/
theorem onGrid_iff (x : Scalar) :
    OnGrid x ↔ ((x * 64.0).isIntegral && Scalar.inRange (-65535.0) 65536.0 (x * 64.0)) = true := by
  have hlow : Scalar.isFinite (-65535.0) = true ∧ (-65535.0 : Scalar).value = -65535 :=
    Scalar.literal .negative 0xffff00 (-8) ⟨by norm_num, rfl⟩
      (by norm_num [Float.Model.UnpackedFloat.Sign.apply])
  have hhigh : Scalar.isFinite 65536.0 = true ∧ (65536.0 : Scalar).value = 65536 :=
    Scalar.literal .positive 0x800000 (-7) ⟨by norm_num, rfl⟩
      (by norm_num [Float.Model.UnpackedFloat.Sign.apply])
  rw [Bool.and_eq_true, Scalar.isIntegral_iff]
  constructor
  · rintro ⟨hfinite, n, hn, hbound⟩
    obtain ⟨hscaled, hvalue⟩ := Scalar.mul_64_exact hfinite hn (by linarith)
    refine ⟨⟨hscaled, n, hvalue⟩, ?_⟩
    rw [Scalar.inRange_iff hlow.1 hhigh.1 hscaled, hlow.2, hhigh.2, hvalue]
    rw [abs_lt] at hbound
    exact ⟨by exact_mod_cast (show -65535 ≤ n by omega), by exact_mod_cast hbound.2⟩
  · rintro ⟨⟨hscaled, n, hn⟩, hrange⟩
    rw [Scalar.inRange_iff hlow.1 hhigh.1 hscaled, hlow.2, hhigh.2, hn] at hrange
    obtain ⟨hfinite, hvalue⟩ := Scalar.mul_64 hscaled
    refine ⟨hfinite, n, ?_, ?_⟩
    · rw [← hn, hvalue]
      ring
    · rw [abs_lt]
      constructor
      · have : -65535 ≤ n := by exact_mod_cast hrange.1
        omega
      · exact_mod_cast hrange.2

instance OnGrid.decidable : DecidablePred OnGrid := fun x => decidable_of_iff _ (onGrid_iff x).symm

theorem OnGrid.lattice {x : Scalar} (h : OnGrid x) : OnLattice x.value ∧ |x.value| < 1024 := by
  obtain ⟨-, n, hn, hbound⟩ := h
  refine ⟨⟨n, hn⟩, ?_⟩
  have hq : |(n : ℚ)| < 65536 := by exact_mod_cast hbound
  rw [hn, abs_div, div_lt_iff₀ (by norm_num)]
  norm_num
  linarith

namespace Icon

/-! ## §2. A tolerance of zero. -/

/-- Everything is on the lattice, and nothing deviates. -/
def lossless : Tolerance where
  number v := OnLattice v ∧ |v| < 1024
  source _ v := OnLattice v ∧ |v| < 1100
  inside v := -64 ≤ v ∧ v < 64
  radius v := -128 ≤ v ∧ v < 128
  angle _ := True
  placed v := OnLattice v ∧ -64 ≤ v ∧ v < 64
  close a b := (a == b) = true
  turned _ _ := True
  landing := 0
  offset _ := 0
  reflection _ := 0
  limit _ _ := True

/-- A power of two brings the grid around a point of the grid into icon space. -/
structure GridFit (t : Transform) : Prop where
  scale : t.scale.isFinite = true ∧ ∃ k : ℕ, t.scale.value = 2 ^ k
  center : t.center.All OnGrid

/-- **Short words keep the lattice.** -/
theorem quantizeCoordinate_lattice {x : Scalar} (hx : x.isFinite = true) (hv : OnLattice x.value)
    (hlow : -128 ≤ x.value) (hhigh : x.value < 128) : quantizeCoordinate x = x := by
  obtain ⟨n, hn⟩ := hv
  rw [hn] at hlow hhigh
  rw [le_div_iff₀ (by norm_num)] at hlow
  rw [div_lt_iff₀ (by norm_num)] at hhigh
  norm_num at hlow hhigh
  exact quantizeCoordinate_grid hx hn (by exact_mod_cast hlow) (by exact_mod_cast hhigh)

/-- **Both forms of a target are exact.** -/
theorem land_lattice {f : Frame} {place x : Scalar} (hx : x.Holds lossless.placed)
    (hplace : f = .relative → place.Holds lossless.placed) :
    (land f place x (x - place)).isFinite = true ∧ (land f place x (x - place)).value = x.value := by
  obtain ⟨hfinite, hlattice, hlow, hhigh⟩ := hx
  cases f with
  | absolute =>
    show (quantizeCoordinate x).isFinite = true ∧ (quantizeCoordinate x).value = x.value
    rw [quantizeCoordinate_lattice hfinite hlattice (by linarith) (by linarith)]
    exact ⟨hfinite, rfl⟩
  | relative =>
    obtain ⟨hplaced, hat, hfrom, hto⟩ := hplace rfl
    obtain ⟨hf, hv⟩ := Scalar.sub_lattice hfinite hplaced hlattice hat
      (by rw [abs_lt]; constructor <;> linarith)
    -- both ends are where short words reach, so their difference is
    have hkept : quantizeCoordinate (x - place) = x - place :=
      quantizeCoordinate_lattice hf (by rw [hv]; exact hlattice.sub hat) (by rw [hv]; linarith)
        (by rw [hv]; linarith)
    have hsum : place.value + (x - place).value = x.value := by
      rw [hv]
      ring
    show (place + quantizeCoordinate (x - place)).isFinite = true ∧
      (place + quantizeCoordinate (x - place)).value = x.value
    rw [hkept, ← hsum]
    exact Scalar.add_lattice hplaced hf hat (by rw [hv]; exact hlattice.sub hat)
      (by rw [hsum, abs_lt]; constructor <;> linarith)

namespace GridFit

variable {t : Transform} {a : Axis} {v d pen : Scalar}

theorem one_le_scale (h : GridFit t) : 1 ≤ t.scale.value := by
  obtain ⟨-, k, hk⟩ := h.scale
  rw [hk]
  exact one_le_pow₀ (by norm_num)

/-- The image of the lattice is exact. -/
theorem image_exact (h : GridFit t) (hv : OnLattice v.value) (hsmall : |v.value| < 2 ^ 16)
    (himage : (t.image a v).isFinite = true) :
    (t.image a v).value = t.exact a v ∧
      OnLattice (t.image a v).value := by
  obtain ⟨-, k, hk⟩ := h.scale
  have hcenter := h.center.along a
  obtain ⟨hlattice, hbound⟩ := hcenter.lattice
  obtain ⟨-, hdiff⟩ := Scalar.isFinite_of_mul himage
  have hclose : |v.value - (t.center.along a).value| < 2 ^ 18 :=
    (abs_sub _ _).trans_lt (by linarith)
  obtain ⟨-, hvalue⟩ := Scalar.sub_lattice (Scalar.isFinite_of_sub hdiff).1 hcenter.1 hv hlattice hclose
  -- a difference on the lattice, scaled by a power of two
  have hproduct := Scalar.mul_lattice hk himage (by rw [hvalue]; exact hv.sub hlattice)
    (by rw [hvalue]; exact hclose)
  rw [hvalue] at hproduct
  have hexact : (t.image a v).value = 2 ^ k * (v.value - (t.center.along a).value) := hproduct
  refine ⟨?_, ?_⟩
  · rw [hexact, ← hk]
    rfl
  · rw [hexact]
    exact (hv.sub hlattice).two_pow_mul k

/-- What is in the icon comes from near the center. -/
theorem source_small (h : GridFit t) (hv : OnLattice v.value) (hsmall : |v.value| < 2 ^ 16)
    (hinside : (t.image a v).Holds lossless.inside) : |v.value| < 1100 := by
  obtain ⟨himage, hlow, hhigh⟩ := hinside
  obtain ⟨hexact, -⟩ := h.image_exact hv hsmall himage
  have hcenter := (h.center.along a).lattice.2
  have hscale := h.one_le_scale
  have habs : |(t.image a v).value| ≤ 64 := abs_le.2 ⟨hlow, hhigh.le⟩
  have hnear : |v.value - (t.center.along a).value| ≤ 64 := by
    unfold Transform.exact at hexact
    rw [hexact, abs_mul, abs_of_nonneg (zero_le_one.trans hscale)] at habs
    exact (le_mul_of_one_le_left (abs_nonneg _) hscale).trans habs
  have hsum := abs_sub_abs_le_abs_sub v.value (t.center.along a).value
  linarith

/-- Nothing deviates if and only if the image is hit. -/
theorem deviation_zero (h : GridFit t) (hv : OnLattice v.value) (hsmall : |v.value| < 2 ^ 16)
    (himage : (t.image a v).isFinite = true) :
    t.deviation a pen v = 0 ↔ pen.value = (t.image a v).value := by
  unfold Transform.deviation
  rw [(h.image_exact hv hsmall himage).1]
  exact sub_eq_zero

/-- An image inside the icon is a place of the pen. -/
theorem placed (h : GridFit t) (hv : OnLattice v.value) (hsmall : |v.value| < 2 ^ 16)
    (hinside : (t.image a v).Holds lossless.inside) : (t.image a v).Holds lossless.placed :=
  ⟨hinside.1, (h.image_exact hv hsmall hinside.1).2, hinside.2⟩

/-- **An absolute operand** hits its image. -/
theorem absolute (h : GridFit t) {f : Frame} {place : Scalar} (hv : lossless.number v.value)
    (hinside : (t.image a v).Holds lossless.inside)
    (hplace : f = .relative → place.Holds lossless.placed) :
    v.Holds (lossless.source a) ∧ (land f place (t.image a v) (t.image a v - place)).isFinite = true ∧
      |t.deviation a (land f place (t.image a v) (t.image a v - place)) v| ≤ 0 := by
  obtain ⟨hlattice, hbound⟩ := hv
  have hsmall : |v.value| < 2 ^ 16 := hbound.trans (by norm_num)
  obtain ⟨hf, hland⟩ := land_lattice (h.placed hlattice hsmall hinside) hplace
  have hfinite := (Scalar.isFinite_of_sub (Scalar.isFinite_of_mul hinside.1).2).1
  refine ⟨⟨hfinite, hlattice, h.source_small hlattice hsmall hinside⟩, hf, ?_⟩
  rw [(h.deviation_zero hlattice hsmall hinside.1).2 hland, abs_zero]

/-- Where a relative operand leads, if the pen hits its image. -/
theorem target (h : GridFit t) (hd : lossless.number d.value)
    (hinside : (t.image a (v + d)).Holds lossless.inside) (hpen : pen.Holds lossless.placed)
    (hv : v.Holds (lossless.source a)) (hzero : |t.deviation a pen v| ≤ 0) :
    (v + d).Holds (lossless.source a) ∧ (v + d).value = v.value + d.value ∧
      (pen + t.scale * d).Holds lossless.placed ∧
      (pen + t.scale * d).value = (t.image a (v + d)).value ∧
      quantizeCoordinate (t.scale * d) = t.scale * d := by
  obtain ⟨hscale, k, hk⟩ := h.scale
  obtain ⟨hplaced, hat, hfrom, hto⟩ := hpen
  obtain ⟨hvfinite, hvlattice, hvsmall⟩ := hv
  obtain ⟨hdlattice, hdsmall⟩ := hd
  obtain ⟨himage, hlow, hhigh⟩ := hinside
  have hdfinite := (Scalar.isFinite_of_add
    (Scalar.isFinite_of_sub (Scalar.isFinite_of_mul himage).2).1).2
  -- the sum in the source
  have hsumsmall : |v.value + d.value| < 2 ^ 16 := (abs_add_le _ _).trans_lt (by linarith)
  obtain ⟨hsumfinite, hsum⟩ := Scalar.add_lattice hvfinite hdfinite hvlattice hdlattice
    (hsumsmall.trans (by norm_num))
  have hsumlattice : OnLattice (v + d).value := by
    rw [hsum]
    exact hvlattice.add hdlattice
  rw [← hsum] at hsumsmall
  obtain ⟨hexact, hon⟩ := h.image_exact hsumlattice hsumsmall himage
  -- the scaled offset is what is between the images
  have hoffset : t.scale.value * d.value = (t.image a (v + d)).value - pen.value := by
    have hpenvalue : pen.value = t.scale.value * (v.value - (t.center.along a).value) :=
      sub_eq_zero.1 (abs_nonpos_iff.1 hzero)
    rw [hexact, hpenvalue]
    unfold Transform.exact
    rw [hsum]
    ring
  have hoffsetsmall : |t.scale.value * d.value| < 128 := by
    rw [hoffset, abs_lt]
    constructor <;> linarith
  have hoffsetfinite : (t.scale * d).isFinite = true :=
    (Scalar.mul_approximates hscale hdfinite).finite (hoffsetsmall.trans (by norm_num))
  have hoffsetvalue : (t.scale * d).value = (t.image a (v + d)).value - pen.value := by
    rw [Scalar.mul_lattice hk hoffsetfinite hdlattice (hdsmall.trans (by norm_num)), ← hk, hoffset]
  have hoffsetlattice : OnLattice (t.scale * d).value := by
    rw [hoffsetvalue]
    exact hon.sub hat
  have hback : pen.value + (t.scale * d).value = (t.image a (v + d)).value := by
    rw [hoffsetvalue]
    ring
  obtain ⟨htarget, htargetvalue⟩ := Scalar.add_lattice hplaced hoffsetfinite hat hoffsetlattice
    (by rw [hback, abs_lt]; constructor <;> linarith)
  rw [hback] at htargetvalue
  refine ⟨⟨hsumfinite, hsumlattice, h.source_small hsumlattice hsumsmall ⟨himage, hlow, hhigh⟩⟩, hsum,
    ⟨htarget, ?_⟩, htargetvalue, ?_⟩
  · rw [htargetvalue]
    exact ⟨hon, hlow, hhigh⟩
  · refine quantizeCoordinate_lattice hoffsetfinite hoffsetlattice ?_ ?_ <;> rw [hoffsetvalue] <;>
      linarith

/-- What hits the image of a sum does not deviate, as the pen does not. -/
theorem target_deviation (h : GridFit t) (hsum : (v + d).Holds (lossless.source a))
    (himage : (t.image a (v + d)).isFinite = true) {x : Scalar} (hx : x.value = (t.image a (v + d)).value)
    (hzero : |t.deviation a pen v| ≤ 0) : |t.deviation a x (v + d) - t.deviation a pen v| ≤ 0 := by
  obtain ⟨-, hlattice, hsmall⟩ := hsum
  rw [(h.deviation_zero hlattice (hsmall.trans (by norm_num)) himage).2 hx, abs_nonpos_iff.1 hzero,
    sub_zero, abs_zero]

/-- **A relative operand** hits its image. -/
theorem relative (h : GridFit t) {f : Frame} (hd : lossless.number d.value)
    (hinside : (t.image a (v + d)).Holds lossless.inside) (hpen : pen.Holds lossless.placed)
    (hv : v.Holds (lossless.source a)) (hzero : |t.deviation a pen v| ≤ 0) :
    (v + d).Holds (lossless.source a) ∧ (land f pen (pen + t.scale * d) (t.scale * d)).isFinite = true ∧
      |t.deviation a (land f pen (pen + t.scale * d) (t.scale * d)) (v + d) - t.deviation a pen v| ≤ 0 := by
  obtain ⟨hsource, -, htarget, hvalue, hkept⟩ := h.target hd hinside hpen hv hzero
  refine ⟨hsource, ?_⟩
  have hland : land f pen (pen + t.scale * d) (t.scale * d) = pen + t.scale * d := by
    cases f with
    | absolute =>
      obtain ⟨hfinite, hlattice, hlow, hhigh⟩ := htarget
      exact quantizeCoordinate_lattice hfinite hlattice (by linarith) (by linarith)
    | relative => exact congrArg (pen + ·) hkept
  rw [hland]
  exact ⟨htarget.1, h.target_deviation hsource hinside.1 hvalue hzero⟩

/-- **A move** hits its image as well. -/
theorem move (h : GridFit t) {f : Frame} {start : Scalar} (hd : lossless.number d.value)
    (hinside : (t.image a (v + d)).Holds lossless.inside) (hpen : pen.Holds lossless.placed)
    (hstart : start.Holds lossless.placed) (hv : v.Holds (lossless.source a))
    (hzero : |t.deviation a pen v| ≤ 0) :
    (v + d).Holds (lossless.source a) ∧
      (land f start (pen + t.scale * d) (pen + t.scale * d - start)).isFinite = true ∧
      |t.deviation a (land f start (pen + t.scale * d) (pen + t.scale * d - start)) (v + d) -
        t.deviation a pen v| ≤ 0 := by
  obtain ⟨hsource, -, htarget, hvalue, -⟩ := h.target hd hinside hpen hv hzero
  obtain ⟨hfinite, hland⟩ := land_lattice (f := f) htarget fun _ => hstart
  exact ⟨hsource, hfinite, h.target_deviation hsource hinside.1 (hland.trans hvalue) hzero⟩

/-- **A reflected control point** hits the image of the reflection. -/
theorem reflect (h : GridFit t) {control w : Scalar} (hpen : pen.Holds lossless.placed)
    (hcontrol : control.Holds lossless.placed) (hv : v.Holds (lossless.source a))
    (hw : w.Holds (lossless.source a)) (hinside : (t.image a (2.0 * v - w)).Holds lossless.inside) :
    (2.0 * v - w : Scalar).Holds (lossless.source a) ∧ (2.0 * pen - control : Scalar).isFinite = true ∧
      |t.deviation a (2.0 * pen - control) (2.0 * v - w) -
        (2 * t.deviation a pen v - t.deviation a control w)| ≤ 0 := by
  -- reflecting is exact in icon space and in the source, with bounds of their own
  have hreflect {x y : Scalar} {b : ℚ} (hb : 3 * b < 2 ^ 18) (hx : x.isFinite = true)
      (hxl : OnLattice x.value) (hxb : |x.value| ≤ b) (hy : y.isFinite = true)
      (hyl : OnLattice y.value) (hyb : |y.value| ≤ b) :
      (2.0 * x - y : Scalar).isFinite = true ∧ (2.0 * x - y : Scalar).value = 2 * x.value - y.value ∧
        OnLattice (2 * x.value - y.value) ∧ |2 * x.value - y.value| ≤ 3 * b := by
    have hdouble : |2 * x.value| ≤ 2 * b := by
      rw [abs_mul, abs_two]
      linarith
    have htwice := hxl.two_pow_mul 1
    rw [pow_one] at htwice
    have hf := Scalar.isFinite_double hx (hxb.trans_lt (by linarith [abs_nonneg x.value]))
    have hval := (Scalar.double_exact hf).2
    have hbound : |2 * x.value - y.value| ≤ 3 * b := (abs_sub _ _).trans (by linarith)
    obtain ⟨hf', hval'⟩ := Scalar.sub_lattice hf hy (by rw [hval]; exact htwice) hyl
      (by rw [hval]; exact hbound.trans_lt hb)
    rw [hval] at hval'
    exact ⟨hf', hval', htwice.sub hyl, hbound⟩
  obtain ⟨hpenfinite, hpenlattice, hpenlow, hpenhigh⟩ := hpen
  obtain ⟨hcfinite, hclattice, hclow, hchigh⟩ := hcontrol
  obtain ⟨hvfinite, hvlattice, hvsmall⟩ := hv
  obtain ⟨hwfinite, hwlattice, hwsmall⟩ := hw
  obtain ⟨hf, hvalue, -, -⟩ := hreflect (b := 64) (by norm_num) hpenfinite hpenlattice
    (abs_le.2 ⟨hpenlow, hpenhigh.le⟩) hcfinite hclattice (abs_le.2 ⟨hclow, hchigh.le⟩)
  obtain ⟨hf', hvalue', hlattice, hbound⟩ := hreflect (b := 1100) (by norm_num) hvfinite hvlattice
    hvsmall.le hwfinite hwlattice hwsmall.le
  rw [← hvalue'] at hlattice hbound
  refine ⟨⟨hf', hlattice, h.source_small hlattice (hbound.trans_lt (by norm_num)) hinside⟩, hf, ?_⟩
  unfold Transform.deviation Transform.exact
  rw [hvalue, hvalue', abs_nonpos_iff]
  ring

end GridFit

/-- **Nothing deviates on the grid.** -/
theorem lossless_bounds {t : Transform} (h : GridFit t) : lossless.Bounds t where
  landing_nonneg := le_rfl
  reflection_nonneg _ := le_rfl
  reflection_le _ := le_rfl
  landing_le _ := le_of_eq (by
    show (2 * 0 + 0 : ℚ) = 2 * 0
    norm_num)
  limit_zero _ := trivial
  near := by
    intro a n pen v hpen hv hinside _ hdeviation
    -- whatever the number of offsets, none of them is off
    have hzero : t.deviation a pen v = 0 := by
      refine abs_nonpos_iff.1 (hdeviation.trans (le_of_eq ?_))
      show (3 * 0 + n * 0 : ℚ) = 0
      ring
    have hsmall : |v.value| < 2 ^ 16 := hv.2.2.trans (by norm_num)
    have hvalue := (h.deviation_zero hv.2.1 hsmall hinside.1).1 hzero
    refine ⟨?_, (Scalar.beq_iff hpen hinside.1).2 hvalue⟩
    rw [hvalue]
    exact (h.placed hv.2.1 hsmall hinside).2
  absolute hv hinside hplace := h.absolute hv hinside hplace
  relative := by
    intro a f n pen v d hd hinside hpen hv _ _ hdeviation
    refine h.relative hd hinside hpen hv (hdeviation.trans (le_of_eq ?_))
    show (3 * 0 + n * 0 : ℚ) = 0
    ring
  move := by
    intro a f n pen start v d hd hinside hpen hstart hv _ _ hdeviation
    refine h.move hd hinside hpen hstart hv (hdeviation.trans (le_of_eq ?_))
    show (3 * 0 + n * 0 : ℚ) = 0
    ring
  here := by
    intro f pen ⟨hfinite, hlattice, hlow, hhigh⟩
    obtain ⟨hzero, hvzero⟩ := Scalar.finite_zero
    have hland : (land f pen pen 0.0).Agrees pen := by
      cases f with
      | absolute =>
        show (quantizeCoordinate pen).Agrees pen
        rw [quantizeCoordinate_lattice hfinite hlattice (by linarith) (by linarith)]
      | relative =>
        show (pen + quantizeCoordinate 0.0).Agrees pen
        rw [quantizeCoordinate_lattice hzero ⟨0, by rw [hvzero]; norm_num⟩ (by rw [hvzero]; norm_num)
          (by rw [hvzero]; norm_num)]
        exact .add_zero hzero hvzero
    refine ⟨hland.isFinite.trans hfinite, ?_⟩
    rw [hland.value, sub_self, abs_zero]
    exact le_rfl
  reflect hpen hcontrol hv hw hinside _ _ := h.reflect hpen hcontrol hv hw hinside
  radii := by
    intro v ⟨hlattice, hsmall⟩ ⟨hfinite, hlow, hhigh⟩
    obtain ⟨-, k, hk⟩ := h.scale
    have hvalue := Scalar.mul_lattice hk hfinite hlattice (hsmall.trans (by norm_num))
    have hkept : quantizeCoordinate (t.scale * v) = t.scale * v := by
      refine quantizeCoordinate_lattice hfinite ?_ hlow hhigh
      rw [hvalue]
      exact hlattice.two_pow_mul k
    rw [hkept]
    exact (Scalar.beq_iff hfinite hfinite).2 rfl
  rotation _ := trivial

/-! ## §3. Drawings on the grid. -/

/-- Segments with equal points, radii and flags; the rotation of an arc is left
    open. -/
def SameNumbers : Segment → Segment → Prop :=
  Segment.Matches (Point.Both fun a b => (a == b) = true) fun _ _ => True

/-- A path whose operands are on the grid and whose reference stays where short
    words reach. -/
structure GridPath (t : Transform) (cs : List Command) : Prop where
  operands : ∀ c ∈ cs, c.All OnGrid fun _ => True
  reference : ∀ g ∈ reference t cs, g.All (fun x => Scalar.inRange (-64.0) 64.0 x = true)
    fun r => Scalar.inRange (-128.0) 128.0 r = true

instance GridPath.decidable (t : Transform) (cs : List Command) : Decidable (GridPath t cs) :=
  decidable_of_iff ((∀ c ∈ cs, c.All OnGrid fun _ => True) ∧ ∀ g ∈ Icon.reference t cs,
      g.All (fun x => Scalar.inRange (-64.0) 64.0 x = true)
        fun r => Scalar.inRange (-128.0) 128.0 r = true)
    ⟨fun h => ⟨h.1, h.2⟩, fun h => ⟨h.operands, h.reference⟩⟩

namespace GridPath

variable {t : Transform} {cs : List Command}

/-- Its operands are as the tolerance presupposes. -/
theorem admits (h : GridPath t cs) : ∀ c ∈ cs, lossless.Admits c :=
  fun c hc => (h.operands c hc).imp (fun _ hx => hx.lattice) fun _ _ => trivial

/-- Its reference is as the tolerance presupposes. -/
theorem inside (h : GridPath t cs) : ∀ g ∈ Icon.reference t cs, lossless.Inside g := by
  obtain ⟨h64, hv64⟩ := Scalar.finite_64
  obtain ⟨h128, hv128⟩ := Scalar.finite_128
  have hm64 := Scalar.finite_neg Scalar.finite_64
  have hm128 := Scalar.finite_neg Scalar.finite_128
  have hpoint (x : Scalar) (hx : Scalar.inRange (-64.0) 64.0 x = true) : x.Holds lossless.inside := by
    have hfinite := Scalar.isFinite_of_inRange hm64.1 h64 hx
    rw [Scalar.inRange_iff hm64.1 h64 hfinite, hm64.2, hv64] at hx
    exact ⟨hfinite, hx⟩
  have hradius (r : Scalar) (hr : Scalar.inRange (-128.0) 128.0 r = true) : r.Holds lossless.radius := by
    have hfinite := Scalar.isFinite_of_inRange hm128.1 h128 hr
    rw [Scalar.inRange_iff hm128.1 h128 hfinite, hm128.2, hv128] at hr
    exact ⟨hfinite, hr⟩
  exact fun g hg => (h.reference g hg).imp hpoint hradius

end GridPath

/-- **A path on the grid is shown as its reference.** -/
theorem shows_sameNumbers {t : Transform} (ht : GridFit t) {cs : List Command} {painted : PaintedPath}
    (h : Shows t cs painted) (hcs : GridPath t cs) :
    List.Forall₂ SameNumbers painted.segments (reference t cs) :=
  lossless.shows_matches (lossless_bounds ht) (fun hab hbc => hab.beq hbc) h hcs.admits
    (fun _ _ _ => trivial) hcs.inside

/-- **Encoding is lossless on the grid.**  If the scale is a power of two and the
    center is on the grid, every path on the grid which stays where short words
    reach is decoded to segments which equal its reference. -/
theorem Encoder.decode_encode_exact (e : Encoder) (d : Drawing) (bytes : List UInt8)
    (h : e.encode d = .ok bytes) (ht : GridFit (Transform.fit d.canvas.viewBox e.outputSize)) :
    ∃ (content : Content) (css : List (List Command)),
      decode bytes = .ok content ∧ d.paths.mapM (fun p => Path.parse p.data) = .ok css ∧
      List.Forall₂
        (fun painted cs => GridPath (Transform.fit d.canvas.viewBox e.outputSize) cs →
          List.Forall₂ SameNumbers painted.segments
            (reference (Transform.fit d.canvas.viewBox e.outputSize) cs))
        content.paths (css.filter (!·.isEmpty)) := by
  obtain ⟨css, content, hcss, hcontent, hshows⟩ := e.decode_encode h
  refine ⟨content, css, hcontent, hcss, ?_⟩
  exact (hshows.imp fun _ _ hshow => shows_sameNumbers ht hshow).flip

/-- A drawing on the grid with every command, in both notations. -/
def gridDrawing : Drawing where
  canvas := ⟨24.0, 24.0, ⟨0.0, 0.0, 24.0, 24.0⟩⟩
  paths :=
    [⟨"M4 4h4.25v-2.5H3V2.5L4 8l1 1q1 0 1 1t2 0T14 6S16 8 12 12s1 1 2-2c1 0 2 0 3 1Z", .default⟩,
     ⟨"m1.5 2a3 4 5 1 0 6 7zm2 .25Q9 9 8 8C1 2 3 4 5 6zl-1-.125A1 2 30 0 1 9 10", .default⟩]

theorem gridDrawing_fit : GridFit (Transform.fit gridDrawing.canvas.viewBox 48.0) := by
  have hscale : ((Transform.fit gridDrawing.canvas.viewBox 48.0).scale == 2.0) = true := by
    decide +kernel
  obtain ⟨h2, hv2⟩ := Scalar.finite_2
  refine ⟨⟨?_, 1, ?_⟩, by decide +kernel⟩
  · exact (Scalar.Agrees.isFinite (.inl hscale)).trans h2
  · rw [Scalar.Agrees.value (.inl hscale), hv2, pow_one]

theorem Encoder.decode_encode_exact_gridDrawing :
    ∃ bytes, Encoder.encode ⟨48.0, .black⟩ gridDrawing = .ok bytes ∧
      ∃ (content : Content) (css : List (List Command)),
        decode bytes = .ok content ∧
        gridDrawing.paths.mapM (fun p => Path.parse p.data) = .ok css ∧
        List.Forall₂
          (fun painted cs => List.Forall₂ SameNumbers painted.segments
            (reference (Transform.fit gridDrawing.canvas.viewBox 48.0) cs))
          content.paths (css.filter (!·.isEmpty)) := by
  have hsome : (Encoder.encode ⟨48.0, .black⟩ gridDrawing).toOption.isSome = true := by
    decide +kernel
  have hpaths : ∀ cs ∈ (gridDrawing.paths.mapM fun p => Path.parse p.data).toOption.getD [],
      GridPath (Transform.fit gridDrawing.canvas.viewBox 48.0) cs := by
    decide +kernel
  obtain ⟨bytes, h⟩ := exists_encode hsome
  obtain ⟨content, css, hcontent, hcss, hexact⟩ :=
    decode_encode_exact ⟨48.0, .black⟩ gridDrawing bytes h gridDrawing_fit
  refine ⟨bytes, h, content, css, hcontent, hcss, ?_⟩
  rw [hcss] at hpaths
  rw [List.forall₂_iff_zip] at hexact ⊢
  refine ⟨hexact.1, fun hmem => hexact.2 hmem (hpaths _ ?_)⟩
  exact (List.mem_filter.1 (List.of_mem_zip hmem).2).1

end Icon

end VectorIcon

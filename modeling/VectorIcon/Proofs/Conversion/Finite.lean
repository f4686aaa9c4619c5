/-
  VectorIcon.Proofs.Conversion.Finite
  ────────────────────────────────
  **WHICH NUMBERS OF AN ICON ARE FINITE.**

  Every number of a document is finite when it is read: those of the view box
  (`Drawing.parse_viewBox`), and those of path data (`Path.parse_finite`).  What
  is computed from them is not checked again.  The view box of an icon and the
  rotations are finite nevertheless; points and radii are so if the commands of
  their path are in range (`ConversionOptions.convert_finite`).  A path which goes
  on after its operands were read, into the range of infinity, is written as it
  is (`ConversionOptions.convert_overflowingDocument`).
-/
import VectorIcon.Conversion.Basic
import VectorIcon.Proofs.Icon.Finite

namespace VectorIcon

/-! ## §1. Numbers of a document. -/

/-- All numbers of a view box satisfy a predicate. -/
def ViewBox.All (holds : Scalar → Prop) (v : ViewBox) : Prop :=
  holds v.minX ∧ holds v.minY ∧ holds v.width ∧ holds v.height

namespace Attribute

variable {name : String} {value : List Char}

/-- The number of an attribute is finite. -/
theorem scalar_finite {x : Scalar} (h : scalar name value = .ok x) : x.isFinite = true := by
  unfold scalar at h
  simp only at h
  split at h
  · next hx =>
    cases h
    exact (Option.filter_eq_some_iff.1 hx).2
  · cases h

theorem viewBox_finite {v : ViewBox} (h : viewBox name value = .ok v) :
    v.All fun x => x.isFinite = true := by
  unfold viewBox scalars at h
  obtain ⟨xs, hxs, h⟩ := Except.bind_eq_ok.1 h
  have hfinite := List.forall_of_mapM (fun _ _ => scalar_finite) hxs
  split at h
  · cases h
    exact ⟨hfinite _ (by simp), hfinite _ (by simp), hfinite _ (by simp), hfinite _ (by simp)⟩
  · cases h

/-- What holds of the values of an attribute holds of the one which is there. -/
theorem optional_holds {α : Type} {read : String → List Char → Except Error α} {holds : α → Prop}
    (hread : ∀ value a, read name value = .ok a → holds a) {attributes : List Xml.Attribute}
    {a : Option α} (h : optional attributes name read = .ok a) : ∀ x ∈ a, holds x := by
  unfold optional at h
  split at h
  · obtain ⟨x, hx, h⟩ := Except.bind_eq_ok.1 h
    cases h
    intro y hy
    cases hy
    exact hread _ _ hx
  · cases h
    intro y hy
    cases hy

end Attribute

/-- **The view box of a canvas** has finite numbers and a positive size. -/
theorem Canvas.ofAttributes_viewBox {attributes : List Xml.Attribute} {c : Canvas}
    (h : ofAttributes attributes = .ok c) :
    (c.viewBox.All fun x => x.isFinite = true) ∧ 0.0 < c.viewBox.width ∧ 0.0 < c.viewBox.height := by
  unfold ofAttributes at h
  obtain ⟨given, hgiven, h⟩ := Except.bind_eq_ok.1 h
  obtain ⟨width, hwidth, h⟩ := Except.bind_eq_ok.1 h
  obtain ⟨height, hheight, h⟩ := Except.bind_eq_ok.1 h
  have hbox := Attribute.optional_holds (fun _ _ => Attribute.viewBox_finite) hgiven
  have hside {side : Option Scalar} (hside : ∀ x ∈ side, x.isFinite = true) (f : ViewBox → Scalar)
      (hf : ∀ v ∈ given, (f v).isFinite = true) :
      ((side.or (given.map f)).getD 0.0).isFinite = true := by
    cases side with
    | some x => exact hside x rfl
    | none =>
      cases given with
      | some v => exact hf v rfl
      | none => exact Scalar.finite_zero.1
  have hw := hside (Attribute.optional_holds (fun _ _ => Attribute.scalar_finite) hwidth) (·.width)
    fun v hv => (hbox v hv).2.2.1
  have hh := hside (Attribute.optional_holds (fun _ _ => Attribute.scalar_finite) hheight) (·.height)
    fun v hv => (hbox v hv).2.2.2
  simp only at h
  split at h
  · next hsize =>
    cases h
    refine ⟨?_, ?_⟩
    · show ViewBox.All _ (Option.getD _ _)
      cases hfilter : given.filter fun v => v.width != 0.0 || v.height != 0.0 with
      | some v => exact hbox v (Option.filter_eq_some_iff.1 hfilter).1
      | none => exact ⟨Scalar.finite_zero.1, Scalar.finite_zero.1, hw, hh⟩
    · rw [Bool.and_eq_true, decide_eq_true_eq, decide_eq_true_eq] at hsize
      exact hsize
  · cases h

/-- **The view box of a drawing** has finite numbers and a positive size. -/
theorem Drawing.parse_viewBox {excluded : Element → Bool} {text : List Char} {d : Drawing}
    (h : parse excluded text = .ok d) :
    (d.canvas.viewBox.All fun x => x.isFinite = true) ∧
      0.0 < d.canvas.viewBox.width ∧ 0.0 < d.canvas.viewBox.height := by
  unfold parse at h
  split at h
  · next root hroot =>
    unfold ofTree at h
    split at h
    · simp only at h
      split at h
      · cases h
      · obtain ⟨elements, -, h⟩ := Except.bind_eq_ok.1 h
        split at h
        · cases h
        · obtain ⟨canvas, hcanvas, h⟩ := Except.bind_eq_ok.1 h
          cases h
          exact Canvas.ofAttributes_viewBox hcanvas
    all_goals cases h
  · cases h

namespace Icon

/-! ## §2. Numbers of an icon. -/

/-- All numbers of a rectangle satisfy a predicate. -/
def Bounds.All (holds : Scalar → Prop) (b : Bounds) : Prop :=
  holds b.minX ∧ holds b.minY ∧ holds b.maxX ∧ holds b.maxY

/-- Points, radii and rotation of the segment are finite. -/
def NumbersFinite (g : Segment) : Prop := PointsFinite g ∧ RotationFinite g

instance Bounds.decidableAll {P : Scalar → Prop} [DecidablePred P] (b : Bounds) :
    Decidable (b.All P) :=
  inferInstanceAs (Decidable (P b.minX ∧ P b.minY ∧ P b.maxX ∧ P b.maxY))

instance RotationFinite.decidable : (g : Segment) → Decidable (RotationFinite g)
  | .arc s _ => inferInstanceAs (Decidable (s.rotation.isFinite = true))
  | .move _ | .line _ | .quad _ _ | .cubic _ _ _ | .close _ => .isTrue trivial

instance NumbersFinite.decidable (g : Segment) : Decidable (NumbersFinite g) :=
  inferInstanceAs (Decidable (PointsFinite g ∧ RotationFinite g))

/-- All numbers of an icon are finite. -/
def Content.Finite (c : Content) : Prop :=
  (c.viewBox.All fun x => x.isFinite = true) ∧
    ∀ painted ∈ c.paths, ∀ g ∈ painted.segments, NumbersFinite g

instance Content.Finite.decidable (c : Content) : Decidable c.Finite :=
  inferInstanceAs (Decidable ((c.viewBox.All fun x => x.isFinite = true) ∧
    ∀ painted ∈ c.paths, ∀ g ∈ painted.segments, NumbersFinite g))

namespace Encoder

/-- The view box which an icon tells, or the default one. -/
theorem viewBoxOf_sections (e : Encoder) :
    Content.viewBoxOf (e.sections.map Prod.snd) = e.bounds ∨
      Content.viewBoxOf (e.sections.map Prod.snd) = .default := by
  unfold sections
  split
  · left
    split <;> rfl
  · right
    split <;> rfl

/-- Half a finite size is finite, and read back as a finite number. -/
theorem bounds_finite {e : Encoder} (h : e.outputSize.isFinite = true) :
    e.bounds.All fun x => x.isFinite = true := by
  obtain ⟨h2, hv2⟩ := Scalar.finite_2
  have hhalf : (e.outputSize / 2.0).isFinite = true := by
    refine (Scalar.div_approximates h h2 (by rw [hv2]; norm_num)).finite ?_
    have hlt := e.outputSize.abs_value_lt
    rw [hv2, abs_div, abs_two]
    linarith
  have hread {x : Scalar} (hx : x.isFinite = true) : (recoverCoordinate x).isFinite = true :=
    (recoverCoordinate_agrees x).isFinite.trans (quantizeCoordinate_error hx).1
  have hhigh := hread hhalf
  have hlow := hread ((Scalar.isFinite_neg _).trans hhalf)
  exact ⟨hlow, hlow, hhigh, hhigh⟩

/-- **The view box of an icon of finite size** is finite. -/
theorem viewBox_finite {e : Encoder} (h : e.outputSize.isFinite = true) :
    (Content.viewBoxOf (e.sections.map Prod.snd)).All fun x => x.isFinite = true := by
  rcases e.viewBoxOf_sections with hbox | hbox
  · rw [hbox]
    exact bounds_finite h
  · rw [hbox]
    decide +kernel

/-- **Which numbers of an icon are finite**: all but points and radii, whatever
    the drawing is; the points and radii of a path in range; and not those of any
    path, if the transform is not finite. -/
theorem encode_finite {e : Encoder} {d : Drawing} {bytes : List UInt8}
    (hsize : e.outputSize.isFinite = true) (h : e.encode d = .ok bytes) :
    ∃ (css : List (List Command)) (content : Content),
      d.paths.mapM (fun p => Path.parse p.data) = .ok css ∧ decode bytes = .ok content ∧
      (content.viewBox.All fun x => x.isFinite = true) ∧
      (∀ painted ∈ content.paths, ∀ g ∈ painted.segments, RotationFinite g) ∧
      List.Forall₂
        (fun painted cs =>
          (InRange (Transform.fit d.canvas.viewBox e.outputSize) cs →
            ∀ g ∈ painted.segments, PointsFinite g) ∧
          ((∀ g ∈ painted.segments, PointsFinite g) →
            (Transform.fit d.canvas.viewBox e.outputSize).Finite))
        content.paths (css.filter (!·.isEmpty)) := by
  obtain ⟨css, hcss, hpaint, hread⟩ := readParts_encode h
  have hcommands : ∀ cs ∈ css.filter (!·.isEmpty), ∀ c ∈ cs, Path.Finite c :=
    fun cs hcs => Path.parse_all_finite hcss cs (List.mem_filter.1 hcs).1
  have hshows := (List.forall₂_and_left _ _).2 ⟨hcommands, Registers.empty.items_show hpaint⟩
  have hdecode : decode bytes = .ok (Content.ofParts ⟨e.sections.map Prod.snd, Registers.empty.items
      (d.paths.filterMap (painting? (Transform.fit d.canvas.viewBox e.outputSize)))⟩) := by
    unfold decode
    rw [hread]
  refine ⟨css, _, hcss, hdecode, viewBox_finite hsize, ?_, ?_⟩
  · have hrotations := (hshows.imp fun _ _ h => h.2.rotations_finite h.1).flip
    exact List.forall_of_forall₂ hrotations
  · exact (hshows.imp fun _ _ h => ⟨h.2.points_finite h.1, h.2.transform_finite⟩).flip

end Encoder

end Icon

/-! ## §3. Conversions. -/

namespace ConversionOptions

open Icon

/-- **Which numbers of a converted document are finite.**  The view box and all
    operands of the document are, otherwise there is no icon.  With an output size
    which is finite, so are the view box and the rotations of the icon; points and
    radii are finite along every path in range, and along no path at all unless
    the transform is finite. -/
theorem convert_finite (o : ConversionOptions) (document icon : List UInt8)
    (hsize : o.outputSize.isFinite = true) (h : o.convert document = .ok icon) :
    ∃ (drawing : Drawing) (css : List (List Command)) (content : Content),
      documentText document >>= o.draw = .ok drawing ∧
      (drawing.canvas.viewBox.All fun x => x.isFinite = true) ∧
      drawing.paths.mapM (fun p => Path.parse p.data) = .ok css ∧
      (∀ cs ∈ css, ∀ c ∈ cs, Path.Finite c) ∧
      decode icon = .ok content ∧
      (content.viewBox.All fun x => x.isFinite = true) ∧
      (∀ painted ∈ content.paths, ∀ g ∈ painted.segments, RotationFinite g) ∧
      List.Forall₂
        (fun painted cs =>
          (InRange (Transform.fit drawing.canvas.viewBox o.outputSize) cs →
            ∀ g ∈ painted.segments, PointsFinite g) ∧
          ((∀ g ∈ painted.segments, PointsFinite g) →
            (Transform.fit drawing.canvas.viewBox o.outputSize).Finite))
        content.paths (css.filter (!·.isEmpty)) := by
  unfold convert at h
  obtain ⟨text, htext, h⟩ := Except.bind_eq_ok.1 h
  obtain ⟨drawing, hdrawing, h⟩ := Except.bind_eq_ok.1 h
  obtain ⟨css, content, hcss, hcontent, hrest⟩ := Encoder.encode_finite (e := o.encoder) hsize h
  exact ⟨drawing, css, content, Except.bind_eq_ok.2 ⟨text, htext, hdrawing⟩,
    (Drawing.parse_viewBox hdrawing).1, hcss, Path.parse_all_finite hcss, hcontent, hrest⟩

/-- A document with large numbers and a view box far from the origin. -/
def farDocument : List UInt8 :=
  "<svg viewBox=\"1e9 -1e9 2e9 1e9\"><path d=\"M1e30 2h-3e30q1 2 3 4T5 6A1e9 1 30 0 1 1 1zl7 7\"/></svg>".toUTF8.toList

theorem convert_finite_farDocument :
    ∃ (icon : List UInt8) (content : Content),
      ConversionOptions.default.convert farDocument = .ok icon ∧ decode icon = .ok content ∧
      content.Finite := by
  have hsome : (ConversionOptions.default.convert farDocument).toOption.isSome = true := by
    decide +kernel
  have hrange : ((documentText farDocument >>= ConversionOptions.default.draw).toOption.all
      fun drawing => (drawing.paths.mapM fun p => Path.parse p.data).toOption.all fun css =>
        css.all fun cs => decide (InRange (Transform.fit drawing.canvas.viewBox 48.0) cs)) = true := by
    decide +kernel
  obtain ⟨icon, hicon⟩ := Except.exists_ok hsome
  obtain ⟨drawing, css, content, hdrawing, -, hcss, -, hcontent, hbox, hrotations, hpoints⟩ :=
    convert_finite ConversionOptions.default farDocument icon (by decide +kernel) hicon
  rw [hdrawing] at hrange
  change (drawing.paths.mapM fun p => Path.parse p.data).toOption.all _ = true at hrange
  rw [hcss] at hrange
  have hinside : ∀ cs ∈ css.filter (!·.isEmpty),
      InRange (Transform.fit drawing.canvas.viewBox 48.0) cs := fun cs hcs =>
    of_decide_eq_true (List.all_eq_true.1 hrange cs (List.mem_filter.1 hcs).1)
  have hfinite := ((List.forall₂_and_left _ _).2 ⟨hinside, hpoints.flip⟩).imp
    fun _ _ h => h.2.1 h.1
  exact ⟨icon, content, hicon, hcontent, hbox, fun painted hpainted g hg =>
    ⟨List.forall_of_forall₂ hfinite.flip painted hpainted g hg, hrotations painted hpainted g hg⟩⟩

/-- A document whose path leaves the range of single precision when it is scaled. -/
def overflowingDocument : List UInt8 :=
  "<svg viewBox=\"0 0 24 24\"><path d=\"M0 0L3e38 0\"/></svg>".toUTF8.toList

/-- **Finite numbers are not enough**: an icon can have infinite ones. -/
theorem convert_overflowingDocument :
    ¬ ∀ (o : ConversionOptions) (document icon : List UInt8) (content : Content),
      o.outputSize.isFinite = true → 0.0 < o.outputSize → o.convert document = .ok icon →
      decode icon = .ok content → content.Finite := by
  intro hclaim
  have hinfinite : ((ConversionOptions.default.convert overflowingDocument).toOption.bind
      fun icon => (decode icon).toOption).any (fun content => !decide content.Finite) = true := by
    decide +kernel
  cases hicon : ConversionOptions.default.convert overflowingDocument with
  | error =>
    rw [hicon] at hinfinite
    cases hinfinite
  | ok icon =>
    rw [hicon] at hinfinite
    change (decode icon).toOption.any _ = true at hinfinite
    cases hcontent : decode icon with
    | error =>
      rw [hcontent] at hinfinite
      cases hinfinite
    | ok content =>
      rw [hcontent] at hinfinite
      have hfinite := hclaim _ _ icon content (by decide +kernel) (by decide +kernel) hicon hcontent
      change (!decide content.Finite) = true at hinfinite
      rw [decide_eq_true hfinite] at hinfinite
      cases hinfinite

end ConversionOptions

end VectorIcon

/-
  VectorIcon.Proofs.Conversion.Json
  ────────────────────────────────
  **OPTIONS AND DRAWINGS ARE READ BACK FROM THEIR JSON.**

  Rules, colors, view boxes and lists of them have values like elements have.
  The fields of a record are taken in one after the other, each by its name; a
  list is read item by item.

  Main result:
    * `json_roundTrip` — options, and drawings, whose numbers are finite.
-/
import VectorIcon.Conversion.Options
import VectorIcon.Drawing.Json
import VectorIcon.Proofs.Color.Text
import VectorIcon.Proofs.Element.Json

namespace VectorIcon

open Json (Fault Key Restored Source Value Writes WritesMember numberValue string_writes)

/-! ## §1. Lists and records. -/

namespace Json

section

variable {σ : Type} {step : σ → List Char → Source → Except Fault σ} {s s' : σ}

/-- A member which is taken in, and those after it. -/
theorem foldMembers_member {name : List Char} {v : Value} (h : step s name v.source = .ok s')
    (ms : List (List Char × Value)) :
    Source.foldMembers step s (Value.memberSources ((name, v) :: ms)) none =
      Source.foldMembers step s' (Value.memberSources ms) none := by
  unfold Source.foldMembers
  rw [Value.memberSources, List.foldlM_cons]
  show ((step s name v.source >>= _) >>= _) = _
  rw [h]
  rfl

/-- A field which is set for the first time. -/
theorem setOnce_none {α : Type} {f : Source → Except Fault α} {v : Source} {a : α} (h : f v = .ok a)
    (set : Option α → σ) : (do return set (← Source.setOnce none f v)) = Except.ok (set (some a)) := by
  show ((f v >>= _) >>= _) = _
  rw [h]
  rfl

end

/-- A list is read from its values. -/
theorem list_values {α : Type} {f : Source → Except Fault α} {g : α → Value} {as : List α}
    (h : ∀ a ∈ as, f (g a).source = .ok a) :
    Source.list f (Value.array (as.map g)).source = .ok as := by
  rw [Value.source, Value.sources_eq, List.map_map]
  show ((as.map fun a => (g a).source).mapM f >>= _) = _
  rw [List.mapM_map_ok h]
  rfl

theorem list_writes {α : Type} {t : α → List Char} {g : α → Value} {as : List α}
    (h : ∀ a ∈ as, Writes (t a) (g a)) : Writes (arrayText (as.map t)) (.array (as.map g)) := by
  refine array_writes ?_
  rw [List.forall₂_map_left_iff, List.forall₂_map_right_iff, List.forall₂_same]
  exact h

end Json

/-! ## §2. Rules. -/

namespace ExclusionRule

/-- The numbers of a rule. -/
def scalars : ExclusionRule → List Scalar
  | .fillNone => []
  | .exact e => e.scalars

/-- The value of a rule. -/
def value : ExclusionRule → Value
  | .fillNone => .object [("rule".toList, .string "fill_none".toList)]
  | .exact e => .object [("rule".toList, .string "exact".toList), ("element".toList, e.value)]

variable {rule : ExclusionRule} (h : ∀ x ∈ rule.scalars, Restored x)

include h

theorem text_writes : Writes rule.jsonText rule.value := by
  cases rule with
  | fillNone => exact Json.object_writes (.cons ⟨rfl, string_writes _⟩ .nil)
  | exact e =>
    exact Json.object_writes (.cons ⟨rfl, string_writes _⟩ (.cons ⟨rfl, Element.text_writes h⟩ .nil))

/-- **A rule is read from its value.** -/
theorem ofSource_value {depth : Nat} (hdepth : 6 ≤ depth) :
    ofSource depth rule.value.source = .ok rule := by
  cases rule with
  | fillNone => rfl
  | exact e =>
    have helement : member (depth - 1) (.named .exact) "element".toList e.value.source =
        .ok (.complete (.exact e)) := by
      show (withSource (depth - 1) .exact e.value.source >>= _) = _
      rw [withSource, Element.ofSource_value h (by omega)]
      rfl
    show (Source.foldMembers (member (depth - 1)) .empty (Value.memberSources _) none >>= ofDraft) = _
    rw [Json.foldMembers_member rfl, Json.foldMembers_member helement]
    rfl

end ExclusionRule

namespace Exclusions

/-- The numbers of a list of rules. -/
def scalars (x : Exclusions) : List Scalar := x.rules.flatMap ExclusionRule.scalars

/-- The value of a list of rules. -/
def value (x : Exclusions) : Value := .array (x.rules.map ExclusionRule.value)

variable {x : Exclusions} (h : ∀ y ∈ x.scalars, Restored y)

include h

theorem text_writes : Writes x.jsonText x.value :=
  Json.list_writes fun rule hrule =>
    ExclusionRule.text_writes fun y hy => h y (List.mem_flatMap.2 ⟨rule, hrule, hy⟩)

theorem ofSource_value {depth : Nat} (hdepth : 7 ≤ depth) : ofSource depth x.value.source = .ok x := by
  have hrules : Source.list (ExclusionRule.ofSource (depth - 1)) x.value.source = .ok x.rules :=
    Json.list_values fun rule hrule =>
      ExclusionRule.ofSource_value (fun y hy => h y (List.mem_flatMap.2 ⟨rule, hrule, hy⟩)) (by omega)
  unfold ofSource
  rw [hrules]
  rfl

end Exclusions

/-! ## §3. Options. -/

namespace Json.Restored

/-- A number is read back from the source of its value. -/
theorem scalar_source {x : Scalar} (h : Restored x) : (numberValue x).source.scalar = .ok x := by
  have hx := h.scalar
  cases hv : numberValue x with
  | number n =>
    rw [hv] at hx
    exact hx
  | null | bool | string | array | object =>
    rw [hv] at hx
    cases hx

end Json.Restored

namespace ConversionOptions

/-- The numbers of options. -/
def scalars (o : ConversionOptions) : List Scalar := o.outputSize :: o.exclusions.scalars

/-- The value of options. -/
def value (o : ConversionOptions) : Value :=
  .object [("output_size".toList, numberValue o.outputSize), ("exclusions".toList, o.exclusions.value),
    ("foreground".toList, .string o.foreground.text)]

variable {o : ConversionOptions} (h : ∀ x ∈ o.scalars, Restored x)

include h

theorem text_writes : Writes o.jsonText o.value := by
  rw [scalars, List.forall_mem_cons] at h
  exact Json.object_writes (.cons ⟨rfl, h.1.writes⟩ (.cons ⟨rfl, Exclusions.text_writes h.2⟩
    (.cons ⟨rfl, string_writes _⟩ .nil)))

/-- **Options are read from their value.** -/
theorem ofSource_value {depth : Nat} (hdepth : 8 ≤ depth) : ofSource depth o.value.source = .ok o := by
  rw [scalars, List.forall_mem_cons] at h
  obtain ⟨hsize, hexclusions⟩ := h
  have hcolor : colorOfSource (Value.string o.foreground.text).source = .ok o.foreground := by
    unfold colorOfSource
    rw [show (Value.string o.foreground.text).source.text = pure o.foreground.text from rfl, pure_bind,
      Rgba.parse?_text]
    rfl
  have h1 : member (depth - 1) ⟨none, none, none⟩ "output_size".toList (numberValue o.outputSize).source =
      .ok ⟨some o.outputSize, none, none⟩ :=
    Json.setOnce_none hsize.scalar_source fun y => Draft.mk y none none
  have h2 : member (depth - 1) ⟨some o.outputSize, none, none⟩ "exclusions".toList
      o.exclusions.value.source = .ok ⟨some o.outputSize, some o.exclusions, none⟩ :=
    Json.setOnce_none (Exclusions.ofSource_value hexclusions (by omega)) fun y => Draft.mk _ y none
  have h3 : member (depth - 1) ⟨some o.outputSize, some o.exclusions, none⟩ "foreground".toList
      (Value.string o.foreground.text).source =
      .ok ⟨some o.outputSize, some o.exclusions, some o.foreground⟩ :=
    Json.setOnce_none hcolor fun y => Draft.mk _ _ y
  show (Source.foldMembers (member (depth - 1)) ⟨none, none, none⟩ (Value.memberSources _) none >>= _) = _
  rw [Json.foldMembers_member h1, Json.foldMembers_member h2, Json.foldMembers_member h3]
  rfl

theorem ofJson_jsonText : ofJson o.jsonText = .ok o :=
  Json.decode_written (text_writes h) (ofSource_value h (by decide))

end ConversionOptions

/-! ## §4. Drawings. -/

namespace ViewBox

/-- The numbers of a view box. -/
def scalars (v : ViewBox) : List Scalar := [v.minX, v.minY, v.width, v.height]

/-- The value of a view box. -/
def value (v : ViewBox) : Value :=
  .object [("min_x".toList, numberValue v.minX), ("min_y".toList, numberValue v.minY),
    ("width".toList, numberValue v.width), ("height".toList, numberValue v.height)]

variable {v : ViewBox} (h : ∀ x ∈ v.scalars, Restored x)

include h

theorem text_writes : Writes v.jsonText v.value := by
  simp only [scalars, List.forall_mem_cons] at h
  obtain ⟨hminX, hminY, hwidth, hheight, -⟩ := h
  exact Json.object_writes (.cons ⟨rfl, hminX.writes⟩ (.cons ⟨rfl, hminY.writes⟩
    (.cons ⟨rfl, hwidth.writes⟩ (.cons ⟨rfl, hheight.writes⟩ .nil))))

theorem ofSource_value : ofSource v.value.source = .ok v := by
  simp only [scalars, List.forall_mem_cons] at h
  obtain ⟨hminX, hminY, hwidth, hheight, -⟩ := h
  have h1 : member ⟨none, none, none, none⟩ "min_x".toList (numberValue v.minX).source =
      .ok ⟨some v.minX, none, none, none⟩ :=
    Json.setOnce_none hminX.scalar_source fun y => Draft.mk y none none none
  have h2 : member ⟨some v.minX, none, none, none⟩ "min_y".toList (numberValue v.minY).source =
      .ok ⟨some v.minX, some v.minY, none, none⟩ :=
    Json.setOnce_none hminY.scalar_source fun y => Draft.mk _ y none none
  have h3 : member ⟨some v.minX, some v.minY, none, none⟩ "width".toList (numberValue v.width).source =
      .ok ⟨some v.minX, some v.minY, some v.width, none⟩ :=
    Json.setOnce_none hwidth.scalar_source fun y => Draft.mk _ _ y none
  have h4 : member ⟨some v.minX, some v.minY, some v.width, none⟩ "height".toList
      (numberValue v.height).source = .ok ⟨some v.minX, some v.minY, some v.width, some v.height⟩ :=
    Json.setOnce_none hheight.scalar_source fun y => Draft.mk _ _ _ y
  show (Source.foldMembers member ⟨none, none, none, none⟩ (Value.memberSources _) none >>= _) = _
  rw [Json.foldMembers_member h1, Json.foldMembers_member h2, Json.foldMembers_member h3,
    Json.foldMembers_member h4]
  rfl

end ViewBox

namespace Canvas

/-- The numbers of a canvas. -/
def scalars (c : Canvas) : List Scalar := c.width :: c.height :: c.viewBox.scalars

/-- The value of a canvas. -/
def value (c : Canvas) : Value :=
  .object [("width".toList, numberValue c.width), ("height".toList, numberValue c.height),
    ("view_box".toList, c.viewBox.value)]

variable {c : Canvas} (h : ∀ x ∈ c.scalars, Restored x)

include h

theorem text_writes : Writes c.jsonText c.value := by
  simp only [scalars, List.forall_mem_cons] at h
  obtain ⟨hwidth, hheight, hbox⟩ := h
  exact Json.object_writes (.cons ⟨rfl, hwidth.writes⟩ (.cons ⟨rfl, hheight.writes⟩
    (.cons ⟨rfl, ViewBox.text_writes hbox⟩ .nil)))

theorem ofSource_value : ofSource c.value.source = .ok c := by
  simp only [scalars, List.forall_mem_cons] at h
  obtain ⟨hwidth, hheight, hbox⟩ := h
  have h1 : member ⟨none, none, none⟩ "width".toList (numberValue c.width).source =
      .ok ⟨some c.width, none, none⟩ :=
    Json.setOnce_none hwidth.scalar_source fun y => Draft.mk y none none
  have h2 : member ⟨some c.width, none, none⟩ "height".toList (numberValue c.height).source =
      .ok ⟨some c.width, some c.height, none⟩ :=
    Json.setOnce_none hheight.scalar_source fun y => Draft.mk _ y none
  have h3 : member ⟨some c.width, some c.height, none⟩ "view_box".toList c.viewBox.value.source =
      .ok ⟨some c.width, some c.height, some c.viewBox⟩ :=
    Json.setOnce_none (ViewBox.ofSource_value hbox) fun y => Draft.mk _ _ y
  show (Source.foldMembers member ⟨none, none, none⟩ (Value.memberSources _) none >>= _) = _
  rw [Json.foldMembers_member h1, Json.foldMembers_member h2, Json.foldMembers_member h3]
  rfl

end Canvas

namespace Drawing

/-- The numbers of a drawing. -/
def scalars (d : Drawing) : List Scalar := d.canvas.scalars ++ d.paths.flatMap PathElement.scalars

/-- The value of a drawing. -/
def value (d : Drawing) : Value :=
  .object [("canvas".toList, d.canvas.value), ("paths".toList, .array (d.paths.map PathElement.value))]

variable {d : Drawing} (h : ∀ x ∈ d.scalars, Restored x)

include h

theorem canvas_restored : ∀ x ∈ d.canvas.scalars, Restored x := fun x hx =>
  h x (List.mem_append_left _ hx)

theorem paths_restored {p : PathElement} (hp : p ∈ d.paths) : ∀ x ∈ p.scalars, Restored x := fun x hx =>
  h x (List.mem_append_right _ (List.mem_flatMap.2 ⟨p, hp, hx⟩))

theorem text_writes : Writes d.jsonText d.value :=
  Json.object_writes (.cons ⟨rfl, Canvas.text_writes (canvas_restored h)⟩
    (.cons ⟨rfl, Json.list_writes fun _ hp => PathElement.text_writes (paths_restored h hp)⟩ .nil))

/-- **A drawing is read from its value.** -/
theorem ofSource_value {depth : Nat} (hdepth : 4 ≤ depth) : ofSource depth d.value.source = .ok d := by
  have hpaths : pathsOfSource (depth - 1) (Value.array (d.paths.map PathElement.value)).source =
      .ok d.paths :=
    Json.list_values fun p hp => PathElement.ofSource_value (paths_restored h hp) (by omega)
  have h1 : member (depth - 1) ⟨none, none⟩ "canvas".toList d.canvas.value.source =
      .ok ⟨some d.canvas, none⟩ :=
    Json.setOnce_none (Canvas.ofSource_value (canvas_restored h)) fun y => Draft.mk y none
  have h2 : member (depth - 1) ⟨some d.canvas, none⟩ "paths".toList
      (Value.array (d.paths.map PathElement.value)).source = .ok ⟨some d.canvas, some d.paths⟩ :=
    Json.setOnce_none hpaths fun y => Draft.mk _ y
  show (Source.foldMembers (member (depth - 1)) ⟨none, none⟩ (Value.memberSources _) none >>= _) = _
  rw [Json.foldMembers_member h1, Json.foldMembers_member h2]
  rfl

theorem ofJson_jsonText : ofJson d.jsonText = .ok d :=
  Json.decode_written (text_writes h) (ofSource_value h (by decide))

end Drawing

/-! ## §5. Both. -/

/-- **Options and drawings of finite numbers are read back from their JSON**,
    every field as it was. -/
theorem json_roundTrip :
    (∀ o : ConversionOptions, (∀ x ∈ o.scalars, x.isFinite = true) →
      ConversionOptions.ofJson o.jsonText = .ok o) ∧
    (∀ d : Drawing, (∀ x ∈ d.scalars, x.isFinite = true) → Drawing.ofJson d.jsonText = .ok d) :=
  ⟨fun _ h => ConversionOptions.ofJson_jsonText fun x hx => .of_finite (h x hx),
    fun _ h => Drawing.ofJson_jsonText fun x hx => .of_finite (h x hx)⟩

/-- Rules of every shape, with texts to escape, and a translucent color. -/
def variedOptions : ConversionOptions where
  outputSize := 0.1
  exclusions :=
    ⟨[.fillNone,
      .exact ⟨.path "M0 0\t\"\\é\u2028\x01", ⟨"url(#a) \n", some 0.5, none⟩⟩,
      .exact ⟨.circle ⟨12.0, -0.0, 1.0e-7⟩, ⟨"none", none, some 0.25⟩⟩,
      .exact ⟨.rect ⟨-3.0, 1.0e30, 16777216.0, 0.3⟩, .default⟩,
      .exact ⟨.ellipse ⟨1.5, 2.5, 1.0e13, 1.0e-6⟩, ⟨"", some 1.0, some 0.0⟩⟩,
      .exact ⟨.polygon ⟨[⟨0.0, 1.0⟩, ⟨2.0, -3.5⟩], true⟩, .default⟩,
      .exact ⟨.polygon ⟨[], false⟩, .default⟩]⟩
  foreground := ⟨0x12, 0xab, 0, 0x7f⟩

/-- Two paths on a canvas off the origin. -/
def offsetDrawing : Drawing where
  canvas := ⟨24.0, 0.1, ⟨-12.0, -0.0, 24.0, 1.0e9⟩⟩
  paths := [⟨"M1 1h2", .default⟩, ⟨"", ⟨"#fff", some 0.7, some 1.0⟩⟩]

theorem json_roundTrip_variedOptions :
    ConversionOptions.ofJson variedOptions.jsonText = .ok variedOptions ∧
      Drawing.ofJson offsetDrawing.jsonText = .ok offsetDrawing :=
  ⟨json_roundTrip.1 _ (by decide +kernel), json_roundTrip.2 _ (by decide +kernel)⟩

end VectorIcon

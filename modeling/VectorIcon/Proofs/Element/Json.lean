/-
  VectorIcon.Proofs.Element.Json
  ────────────────────────────────
  **ELEMENTS ARE READ BACK FROM THEIR JSON.**

  Every element has a value (`Element.value`): the text of the element writes it,
  and it is read as the element.  The paint follows the geometry among the same
  members, so what is asked of one part must not be found in the other: the names
  of the paint are not names of any geometry.

      Element.text_writes, Element.ofSource_value
      PathElement.text_writes, PathElement.ofSource_value
-/
import VectorIcon.Element.Json
import VectorIcon.Proofs.Json.Number
import VectorIcon.Proofs.Path.Commands

namespace VectorIcon

/-! ## §1. Numbers and lists. -/

namespace Json

/-- The value which is read from the text of a number. -/
def numberValue (x : Scalar) : Value :=
  match (parse (numberText x)).source with
  | .number (.ok n) => .number n
  | _ => .null

/-- A number which is read back from its text. -/
structure Restored (x : Scalar) : Prop where
  writes : Writes (numberText x) (numberValue x)
  scalar : (numberValue x).scalar = .ok x

theorem Restored.of_writes {x : Scalar} {n : Number} (h : Writes (numberText x) (.number n))
    (hn : n.toScalar = x) : Restored x := by
  have hvalue : numberValue x = .number n := by
    unfold numberValue
    rw [parse_written h]
    rfl
  rw [← hn] at h ⊢
  exact ⟨by rw [hn, hvalue, ← hn]; exact h, by rw [hn, hvalue, ← hn]; rfl⟩

/-- **Finite numbers are read back from their texts.** -/
theorem Restored.of_finite {x : Scalar} (hx : x.isFinite = true) : Restored x := by
  obtain ⟨n, hwrites, hn⟩ := numberText_read hx
  exact .of_writes hwrites hn

/-- Numbers are not nested. -/
@[simp] theorem height_numberValue (x : Scalar) : (numberValue x).height = 0 := by
  unfold numberValue
  split <;> rfl

namespace Value

variable {α : Type} {l r : List (List Char × Value)} {name : String} {f : Value → Except Fault α}
  {default : α}

/-- Members of other names do not count: behind the field, … -/
theorem field_append_left (h : ∀ m ∈ r, m.1 ≠ name.toList) :
    field (l ++ r) name f default = field l name f default := by
  have hnone : r.filter (·.1 = name.toList) = [] :=
    List.filter_eq_nil_iff.2 fun m hm => by simpa using h m hm
  unfold field
  rw [List.filter_append, hnone, List.append_nil]

/-- … and before it. -/
theorem field_append_right (h : ∀ m ∈ l, m.1 ≠ name.toList) :
    field (l ++ r) name f default = field r name f default := by
  have hnone : l.filter (·.1 = name.toList) = [] :=
    List.filter_eq_nil_iff.2 fun m hm => by simpa using h m hm
  unfold field
  rw [List.filter_append, hnone, List.nil_append]

end Value

end Json

open Json (Fault Key Restored Source Value Writes WritesMember numberValue string_writes)

/-! ## §2. Paint. -/

/-- The member of an opacity, if it is set. -/
def opacityValue (name : String) : Option Scalar → List (List Char × Value)
  | some x => [(name.toList, numberValue x)]
  | none => []

/-- An opacity is written if it is set. -/
theorem opacity_writes (name : String) {o : Option Scalar} (h : ∀ x ∈ o, Restored x) :
    List.Forall₂ WritesMember (opacityMember name o) (opacityValue name o) := by
  cases o with
  | none => exact .nil
  | some x => exact .cons ⟨rfl, (h x rfl).writes⟩ .nil

theorem opacityValue_names (name : String) (o : Option Scalar) :
    ∀ m ∈ opacityValue name o, m.1 = name.toList ∧ m.2.height = 0 := by
  intro m hm
  cases o with
  | none => cases hm
  | some x =>
    rw [List.mem_singleton.1 hm]
    exact ⟨rfl, Json.height_numberValue x⟩

/-- The field of an opacity is the opacity, set or not. -/
theorem field_opacityValue (name : String) {o : Option Scalar} (h : ∀ x ∈ o, Restored x) :
    Value.field (opacityValue name o) name Value.optionalScalar none = .ok o := by
  cases o with
  | none => rfl
  | some x =>
    have hx := (h x rfl).scalar
    unfold Value.field opacityValue
    rw [List.filter_cons_of_pos (by simp)]
    show Value.optionalScalar (numberValue x) = _
    cases hv : numberValue x with
    | number n =>
      rw [hv] at hx
      cases hx
      rfl
    | null | bool | string | array | object =>
      rw [hv] at hx
      cases hx

namespace Paint

/-- The numbers of a paint. -/
def scalars (p : Paint) : List Scalar := p.fillOpacity.toList ++ p.opacity.toList

/-- The members of a paint. -/
def members (p : Paint) : List (List Char × Value) :=
  ("fill".toList, .string p.fill.toList) ::
    (opacityValue "fill_opacity" p.fillOpacity ++ opacityValue "opacity" p.opacity)

/-- The names of the members. -/
def memberNames : List (List Char) := ["fill".toList, "fill_opacity".toList, "opacity".toList]

variable {p : Paint}

theorem members_named (p : Paint) : ∀ m ∈ p.members, m.1 ∈ memberNames ∧ m.2.height = 0 := by
  intro m hm
  rcases List.mem_cons.1 hm with rfl | hm
  · exact ⟨List.mem_cons_self, rfl⟩
  · rcases List.mem_append.1 hm with hm | hm
    · obtain ⟨hname, hheight⟩ := opacityValue_names _ _ m hm
      rw [hname]
      exact ⟨by decide, hheight⟩
    · obtain ⟨hname, hheight⟩ := opacityValue_names _ _ m hm
      rw [hname]
      exact ⟨by decide, hheight⟩

theorem members_write (h : ∀ x ∈ p.scalars, Restored x) :
    List.Forall₂ WritesMember p.jsonMembers p.members := by
  refine .cons ⟨rfl, string_writes _⟩ (List.rel_append ?_ ?_)
  · exact opacity_writes _ fun x hx => h x (List.mem_append_left _ (Option.mem_toList.2 hx))
  · exact opacity_writes _ fun x hx => h x (List.mem_append_right _ (Option.mem_toList.2 hx))

/-- **The paint is read from its members**, whatever stands before them. -/
theorem ofMembers_members (h : ∀ x ∈ p.scalars, Restored x) {before : List (List Char × Value)}
    (hbefore : ∀ m ∈ before, m.1 ∉ memberNames) : ofMembers (before ++ p.members) = .ok p := by
  have hskip (name : String) (hname : name.toList ∈ memberNames) :
      ∀ m ∈ before, m.1 ≠ name.toList := fun m hm heq => hbefore m hm (heq ▸ hname)
  have hother (name other : String) (o : Option Scalar) (hne : other.toList ≠ name.toList) :
      ∀ m ∈ opacityValue other o, m.1 ≠ name.toList := fun m hm heq =>
    hne ((opacityValue_names other o m hm).1.symm.trans heq)
  have hfirst (name : String) (hne : "fill".toList ≠ name.toList) :
      (("fill".toList, .string p.fill.toList) : List Char × Value).1 ≠ name.toList := hne
  have hfill : Value.field (before ++ p.members) "fill" Value.text [] = .ok p.fill.toList := by
    rw [Value.field_append_right (hskip _ (by decide))]
    show Value.field ([_] ++ (_ ++ _)) _ _ _ = _
    rw [Value.field_append_left]
    · rfl
    · intro m hm
      rcases List.mem_append.1 hm with hm | hm
      · exact hother _ _ _ (by decide) m hm
      · exact hother _ _ _ (by decide) m hm
  have hfillOpacity : Value.field (before ++ p.members) "fill_opacity" Value.optionalScalar none =
      .ok p.fillOpacity := by
    rw [Value.field_append_right (hskip _ (by decide))]
    show Value.field ([_] ++ (_ ++ _)) _ _ _ = _
    rw [Value.field_append_right (List.forall_mem_singleton.2 (hfirst _ (by decide))),
      Value.field_append_left (hother _ _ _ (by decide))]
    exact field_opacityValue _ fun x hx => h x (List.mem_append_left _ (Option.mem_toList.2 hx))
  have hopacity : Value.field (before ++ p.members) "opacity" Value.optionalScalar none =
      .ok p.opacity := by
    rw [Value.field_append_right (hskip _ (by decide))]
    show Value.field ([_] ++ (_ ++ _)) _ _ _ = _
    rw [Value.field_append_right (List.forall_mem_singleton.2 (hfirst _ (by decide))),
      Value.field_append_right (hother _ _ _ (by decide))]
    exact field_opacityValue _ fun x hx => h x (List.mem_append_right _ (Option.mem_toList.2 hx))
  unfold ofMembers
  rw [hfill, hfillOpacity, hopacity]
  show Except.ok (Paint.mk (String.ofList p.fill.toList) _ _) = _
  rw [String.ofList_toList]

end Paint

/-! ## §3. Shapes. -/

namespace Point

/-- The value of a point. -/
def value (p : Point) : Value := .array [numberValue p.x, numberValue p.y]

variable {p : Point} (hx : Restored p.x) (hy : Restored p.y)

include hx hy

theorem text_writes : Writes p.jsonText p.value :=
  Json.array_writes (.cons hx.writes (.cons hy.writes .nil))

theorem ofJson_value : ofJson p.value = .ok p := by
  show (do return Point.mk (← (numberValue p.x).scalar) (← (numberValue p.y).scalar)) = _
  rw [hx.scalar, hy.scalar]
  rfl

end Point

namespace Shape

/-- The numbers of a shape. -/
def scalars : Shape → List Scalar
  | .path _ => []
  | .circle c => [c.cx, c.cy, c.r]
  | .rect r => [r.x, r.y, r.width, r.height]
  | .ellipse e => [e.cx, e.cy, e.rx, e.ry]
  | .polygon p => p.points.flatMap fun q => [q.x, q.y]

/-- The kind of a shape. -/
def kind : Shape → ShapeKind
  | .path _ => .path
  | .circle _ => .circle
  | .rect _ => .rect
  | .ellipse _ => .ellipse
  | .polygon _ => .polygon

/-- The members of a shape, its type aside. -/
def members : Shape → List (List Char × Value)
  | .path d => [("d".toList, .string d.toList)]
  | .circle c =>
    [("cx".toList, numberValue c.cx), ("cy".toList, numberValue c.cy), ("r".toList, numberValue c.r)]
  | .rect r =>
    [("x".toList, numberValue r.x), ("y".toList, numberValue r.y), ("width".toList, numberValue r.width),
      ("height".toList, numberValue r.height)]
  | .ellipse e =>
    [("cx".toList, numberValue e.cx), ("cy".toList, numberValue e.cy), ("rx".toList, numberValue e.rx),
      ("ry".toList, numberValue e.ry)]
  | .polygon p =>
    [("points".toList, .array (p.points.map Point.value)), ("closed".toList, .bool p.closed)]

variable {s : Shape}

/-- No member of a shape has the name of a member of a paint, nor that of the
    type. -/
theorem members_named (s : Shape) :
    ∀ m ∈ s.members, m.1 ∉ Paint.memberNames ∧ m.1 ≠ "type".toList := by
  cases s <;> simp only [members, List.forall_mem_cons] <;> decide

theorem members_write (h : ∀ x ∈ s.scalars, Restored x) :
    List.Forall₂ WritesMember s.jsonMembers
      (("type".toList, .string s.kind.name.toList) :: s.members) := by
  cases s with
  | path d => exact .cons ⟨rfl, string_writes _⟩ (.cons ⟨rfl, string_writes _⟩ .nil)
  | circle c =>
    simp only [scalars, List.forall_mem_cons] at h
    obtain ⟨hcx, hcy, hr, -⟩ := h
    exact .cons ⟨rfl, string_writes _⟩ (.cons ⟨rfl, hcx.writes⟩ (.cons ⟨rfl, hcy.writes⟩
      (.cons ⟨rfl, hr.writes⟩ .nil)))
  | rect r =>
    simp only [scalars, List.forall_mem_cons] at h
    obtain ⟨hx, hy, hwidth, hheight, -⟩ := h
    exact .cons ⟨rfl, string_writes _⟩ (.cons ⟨rfl, hx.writes⟩ (.cons ⟨rfl, hy.writes⟩
      (.cons ⟨rfl, hwidth.writes⟩ (.cons ⟨rfl, hheight.writes⟩ .nil))))
  | ellipse e =>
    simp only [scalars, List.forall_mem_cons] at h
    obtain ⟨hcx, hcy, hrx, hry, -⟩ := h
    exact .cons ⟨rfl, string_writes _⟩ (.cons ⟨rfl, hcx.writes⟩ (.cons ⟨rfl, hcy.writes⟩
      (.cons ⟨rfl, hrx.writes⟩ (.cons ⟨rfl, hry.writes⟩ .nil))))
  | polygon p =>
    have hpoints : List.Forall₂ Writes (p.points.map Point.jsonText) (p.points.map Point.value) := by
      rw [List.forall₂_map_left_iff, List.forall₂_map_right_iff, List.forall₂_same]
      intro q hq
      have hmem (x : Scalar) (hx : x ∈ [q.x, q.y]) : Restored x :=
        h x (List.mem_flatMap.2 ⟨q, hq, hx⟩)
      exact Point.text_writes (hmem _ (by simp)) (hmem _ (by simp))
    exact .cons ⟨rfl, string_writes _⟩ (.cons ⟨rfl, Json.array_writes hpoints⟩
      (.cons ⟨rfl, Json.bool_writes _⟩ .nil))

/-- **The shape is read from its members**, whatever paint stands behind them. -/
theorem ofMembers_members (h : ∀ x ∈ s.scalars, Restored x) {behind : List (List Char × Value)}
    (hbehind : ∀ m ∈ behind, m.1 ∈ Paint.memberNames) :
    ofMembers s.kind (s.members ++ behind) = .ok s := by
  have hskip (name : String) (hname : name.toList ∉ Paint.memberNames) :
      ∀ m ∈ behind, m.1 ≠ name.toList := fun m hm heq => hname (heq ▸ hbehind m hm)
  have hscalar (name : String) (hname : name.toList ∉ Paint.memberNames) {x : Scalar} (hx : Restored x)
      (hfield : Value.field s.members name Value.scalar 0.0 = (numberValue x).scalar) :
      Value.field (s.members ++ behind) name Value.scalar 0.0 = .ok x := by
    rw [Value.field_append_left (hskip name hname), hfield, hx.scalar]
  cases s with
  | path d =>
    unfold ofMembers kind
    simp only
    rw [Value.field_append_left (hskip "d" (by decide))]
    show Except.ok (Shape.path (String.ofList d.toList)) = _
    rw [String.ofList_toList]
  | circle c =>
    simp only [scalars, List.forall_mem_cons] at h
    obtain ⟨hcx, hcy, hr, -⟩ := h
    unfold ofMembers kind
    simp only
    rw [hscalar "cx" (by decide) hcx rfl, hscalar "cy" (by decide) hcy rfl,
      hscalar "r" (by decide) hr rfl]
    rfl
  | rect r =>
    simp only [scalars, List.forall_mem_cons] at h
    obtain ⟨hx, hy, hwidth, hheight, -⟩ := h
    unfold ofMembers kind
    simp only
    rw [hscalar "x" (by decide) hx rfl, hscalar "y" (by decide) hy rfl,
      hscalar "width" (by decide) hwidth rfl, hscalar "height" (by decide) hheight rfl]
    rfl
  | ellipse e =>
    simp only [scalars, List.forall_mem_cons] at h
    obtain ⟨hcx, hcy, hrx, hry, -⟩ := h
    unfold ofMembers kind
    simp only
    rw [hscalar "cx" (by decide) hcx rfl, hscalar "cy" (by decide) hcy rfl,
      hscalar "rx" (by decide) hrx rfl, hscalar "ry" (by decide) hry rfl]
    rfl
  | polygon p =>
    have hpoints : (p.points.map Point.value).mapM Point.ofJson = .ok p.points :=
      List.mapM_map_ok fun q hq => by
        have hmem (x : Scalar) (hx : x ∈ [q.x, q.y]) : Restored x :=
          h x (List.mem_flatMap.2 ⟨q, hq, hx⟩)
        exact Point.ofJson_value (hmem _ (by simp)) (hmem _ (by simp))
    unfold ofMembers kind
    simp only
    rw [Value.field_append_left (hskip "points" (by decide)),
      Value.field_append_left (hskip "closed" (by decide))]
    show (do return Shape.polygon ⟨← (p.points.map Point.value).mapM Point.ofJson, p.closed⟩) = _
    rw [hpoints]
    rfl

/-- A list of points is nested twice. -/
theorem members_height (s : Shape) : Value.memberHeights s.members ≤ 2 := by
  have hpoints (ps : List Point) : Value.heights (ps.map Point.value) ≤ 1 := by
    induction ps with
    | nil => exact Nat.zero_le 1
    | cons p ps ih =>
      rw [List.map_cons, Value.heights]
      refine Nat.max_le.2 ⟨?_, ih⟩
      simp [Point.value, Value.height, Value.heights]
  cases s with
  | path | circle | rect | ellipse => simp [members, Value.memberHeights, Value.height]
  | polygon p =>
    have hp := hpoints p.points
    simp only [members, Value.memberHeights, Value.height]
    omega

end Shape

/-! ## §4. Elements. -/

theorem Paint.members_height (p : Paint) : Value.memberHeights p.members = 0 := by
  have hflat : ∀ ms : List (List Char × Value), (∀ m ∈ ms, m.2.height = 0) → Value.memberHeights ms = 0 := by
    intro ms h
    induction ms with
    | nil => rfl
    | cons m ms ih =>
      rw [Value.memberHeights, h m List.mem_cons_self, ih fun k hk => h k (List.mem_cons_of_mem m hk)]
      rfl
  exact hflat _ fun m hm => (p.members_named m hm).2

theorem Json.Value.memberHeights_append (l r : List (List Char × Value)) :
    Value.memberHeights (l ++ r) = max (Value.memberHeights l) (Value.memberHeights r) := by
  induction l with
  | nil => exact (Nat.zero_max _).symm
  | cons m l ih => rw [List.cons_append, Value.memberHeights, Value.memberHeights, ih, Nat.max_assoc]

theorem ShapeKind.ofName_name (k : ShapeKind) : ofName k.name.toList = .ok k := by
  cases k <;> rfl

namespace Element

/-- The numbers of an element. -/
def scalars (e : Element) : List Scalar := e.shape.scalars ++ e.paint.scalars

/-- The members of an element, its type aside. -/
def members (e : Element) : List (List Char × Value) := e.shape.members ++ e.paint.members

/-- The value of an element. -/
def value (e : Element) : Value :=
  .object (("type".toList, .string e.shape.kind.name.toList) :: e.members)

/-- Members of other names are collected as they are. -/
theorem collect_members {depth : Nat} (kind : Option ShapeKind) {ms : List (List Char × Value)}
    (hnames : ∀ m ∈ ms, m.1 ≠ "type".toList) (hdepth : Value.memberHeights ms < depth) :
    collect depth kind (Value.memberSources ms) = .ok (kind, ms) := by
  induction ms with
  | nil => rfl
  | cons m ms ih =>
    rw [Value.memberHeights] at hdepth
    have hname : m.1 ≠ "type".toList := hnames m List.mem_cons_self
    rw [Value.memberSources, collect]
    show (if m.1 = "type".toList then _ else _) = _
    rw [if_neg hname, Source.value?_source m.2 (by omega)]
    show (collect depth kind (Value.memberSources ms) >>= _) = _
    rw [ih (fun k hk => hnames k (List.mem_cons_of_mem m hk)) (by omega)]
    rfl

theorem members_untyped (e : Element) : ∀ m ∈ e.members, m.1 ≠ "type".toList := by
  intro m hm
  rcases List.mem_append.1 hm with hm | hm
  · exact (e.shape.members_named m hm).2
  · have hall : ∀ n ∈ Paint.memberNames, n ≠ "type".toList := by decide
    exact hall _ (e.paint.members_named m hm).1

theorem members_height (e : Element) : Value.memberHeights e.members ≤ 2 := by
  rw [members, Json.Value.memberHeights_append, e.paint.members_height]
  exact Nat.max_le.2 ⟨e.shape.members_height, Nat.zero_le 2⟩

variable {e : Element} (h : ∀ x ∈ e.scalars, Restored x)

include h

/-- The text of an element writes its value. -/
theorem text_writes : Writes e.jsonText e.value :=
  Json.object_writes (List.rel_append (Shape.members_write fun x hx => h x (List.mem_append_left _ hx))
    (Paint.members_write fun x hx => h x (List.mem_append_right _ hx)))

theorem ofMembers_members : ofMembers e.shape.kind e.members = .ok e := by
  have hshape := Shape.ofMembers_members (fun x hx => h x (List.mem_append_left _ hx))
    fun m hm => (e.paint.members_named m hm).1
  have hpaint := Paint.ofMembers_members (fun x hx => h x (List.mem_append_right _ hx))
    fun m hm => (e.shape.members_named m hm).1
  unfold ofMembers members
  rw [hshape, hpaint]
  rfl

/-- **An element is read from its value.** -/
theorem ofSource_value {depth : Nat} (hdepth : 4 ≤ depth) : ofSource depth e.value.source = .ok e := by
  have hheight := e.members_height
  have hrest := collect_members (some e.shape.kind) e.members_untyped
    (show Value.memberHeights e.members < depth - 1 by omega)
  have hcollect : collect (depth - 1) none
      (Value.memberSources (("type".toList, .string e.shape.kind.name.toList) :: e.members)) =
      .ok (some e.shape.kind, e.members) := by
    rw [Value.memberSources, collect]
    show (ShapeKind.ofName e.shape.kind.name.toList >>= fun k =>
      collect (depth - 1) (some k) (Value.memberSources e.members)) = _
    rw [ShapeKind.ofName_name]
    exact hrest
  rw [value, Value.source, ofSource, hcollect]
  exact ofMembers_members h

end Element

/-! ## §5. Paths. -/

namespace PathElement

/-- The numbers of a path. -/
def scalars (p : PathElement) : List Scalar := p.paint.scalars

/-- The value of a path. -/
def value (p : PathElement) : Value := .object (("d".toList, .string p.data.toList) :: p.paint.members)

/-- Members of other names are collected as they are. -/
theorem collect_members {depth : Nat} (data : Option (List Char)) {ms : List (List Char × Value)}
    (hnames : ∀ m ∈ ms, m.1 ≠ ['d']) (hdepth : Value.memberHeights ms < depth) :
    collect depth data (Value.memberSources ms) = .ok (data, ms) := by
  induction ms with
  | nil => rfl
  | cons m ms ih =>
    rw [Value.memberHeights] at hdepth
    have hname : m.1 ≠ ['d'] := hnames m List.mem_cons_self
    rw [Value.memberSources, collect]
    show (if m.1 = ['d'] then _ else _) = _
    rw [if_neg hname, Source.value?_source m.2 (by omega)]
    show (collect depth data (Value.memberSources ms) >>= _) = _
    rw [ih (fun k hk => hnames k (List.mem_cons_of_mem m hk)) (by omega)]
    rfl

variable {p : PathElement} (h : ∀ x ∈ p.scalars, Restored x)

include h

/-- The text of a path writes its value. -/
theorem text_writes : Writes p.jsonText p.value :=
  Json.object_writes (.cons ⟨rfl, string_writes _⟩ (Paint.members_write h))

/-- **A path is read from its value.** -/
theorem ofSource_value {depth : Nat} (hdepth : 2 ≤ depth) : ofSource depth p.value.source = .ok p := by
  have hunnamed : ∀ m ∈ p.paint.members, m.1 ≠ ['d'] := by
    have hall : ∀ n ∈ Paint.memberNames, n ≠ ['d'] := by decide
    exact fun m hm => hall _ (p.paint.members_named m hm).1
  have hheight := p.paint.members_height
  have hcollect : collect (depth - 1) none
      (Value.memberSources (("d".toList, .string p.data.toList) :: p.paint.members)) =
      .ok (some p.data.toList, p.paint.members) := by
    rw [Value.memberSources, collect]
    exact collect_members _ hunnamed (by omega)
  have hpaint : Paint.ofMembers ([] ++ p.paint.members) = .ok p.paint :=
    Paint.ofMembers_members h fun m hm => nomatch hm
  rw [List.nil_append] at hpaint
  rw [value, Value.source, ofSource, hcollect]
  show (Paint.ofMembers p.paint.members >>= fun paint =>
    Except.ok (PathElement.mk (String.ofList p.data.toList) paint)) = _
  rw [hpaint, String.ofList_toList]
  rfl

end PathElement

end VectorIcon

/-
  VectorIcon.Proofs.Drawing.Walk
  ────────────────────────────────
  **A DRAWING IS ITS LEAVES IN DOCUMENT ORDER.**

  One walk over the tree collects what reading all leaves, dropping the excluded
  ones and taking the others as paths gives (`Drawing.collect_eq`).  So only the
  row of leaves counts: nodes may be regrouped (`Regroups`) without a trace, and
  the first leaf which can not be read is the one reported.

      Leaf.element_draws     — a leaf which is read has one of six names
      Regroups.leaves        — regrouping keeps the row of leaves
      Drawing.collect_ok_iff, Drawing.collect_error_iff
                             — the two outcomes of a walk
      PathElement.element_node
                             — a path written as markup is read as itself
      Drawing.ofTree_inOrder
-/
import Mathlib.Data.List.Forall2
import Mathlib.Logic.Relation
import VectorIcon.Drawing.Walk
import VectorIcon.Exclusion
import VectorIcon.Proofs.Path.Commands

namespace VectorIcon

/-! ## §1. Leaves which are read. -/

namespace Leaf

/-- The names of elements which are drawn. -/
def drawableNames : List String := ["path", "rect", "circle", "ellipse", "polygon", "polyline"]

/-- A leaf is drawn as an element of the same name. -/
structure Draws (l : Leaf) (e : Element) : Prop where
  drawable : l.name ∈ drawableNames
  reads : l.element = .ok e
  name : e.name = l.name

/-- **A leaf which is read is one of the drawable elements.** -/
theorem element_draws {l : Leaf} {e : Element} (h : l.element = .ok e) : l.Draws e := by
  have hreads := h
  unfold element at h
  obtain ⟨shape, hshape, h⟩ := Except.bind_eq_ok.1 h
  obtain ⟨paint, -, h⟩ := Except.bind_eq_ok.1 h
  cases h
  have hname : l.name ∈ drawableNames ∧ shape.name = l.name := by
    obtain ⟨name, attributes⟩ := l
    unfold Leaf.shape at hshape
    simp only at hshape
    split at hshape
    · cases hshape
      exact ⟨by simp [drawableNames], rfl⟩
    · obtain ⟨x, -, hshape⟩ := Except.bind_eq_ok.1 hshape
      obtain ⟨y, -, hshape⟩ := Except.bind_eq_ok.1 hshape
      obtain ⟨width, -, hshape⟩ := Except.bind_eq_ok.1 hshape
      obtain ⟨height, -, hshape⟩ := Except.bind_eq_ok.1 hshape
      cases hshape
      exact ⟨by simp [drawableNames], rfl⟩
    · obtain ⟨cx, -, hshape⟩ := Except.bind_eq_ok.1 hshape
      obtain ⟨cy, -, hshape⟩ := Except.bind_eq_ok.1 hshape
      obtain ⟨r, -, hshape⟩ := Except.bind_eq_ok.1 hshape
      cases hshape
      exact ⟨by simp [drawableNames], rfl⟩
    · obtain ⟨cx, -, hshape⟩ := Except.bind_eq_ok.1 hshape
      obtain ⟨cy, -, hshape⟩ := Except.bind_eq_ok.1 hshape
      obtain ⟨rx, -, hshape⟩ := Except.bind_eq_ok.1 hshape
      obtain ⟨ry, -, hshape⟩ := Except.bind_eq_ok.1 hshape
      cases hshape
      exact ⟨by simp [drawableNames], rfl⟩
    · obtain ⟨points, -, hshape⟩ := Except.bind_eq_ok.1 hshape
      cases hshape
      exact ⟨by simp [drawableNames], rfl⟩
    · obtain ⟨points, -, hshape⟩ := Except.bind_eq_ok.1 hshape
      cases hshape
      exact ⟨by simp [drawableNames], rfl⟩
    · cases hshape
  exact ⟨hname.1, hreads, hname.2⟩

theorem element_iff {l : Leaf} {e : Element} : l.element = .ok e ↔ l.Draws e :=
  ⟨element_draws, Draws.reads⟩

theorem ofNodes_append (ns ms : List Xml.Node) : ofNodes (ns ++ ms) = ofNodes ns ++ ofNodes ms := by
  induction ns with
  | nil => rfl
  | cons n ns ih => rw [List.cons_append, ofNodes, ofNodes, ih, List.append_assoc]

end Leaf

/-! ## §2. Regrouping. -/

/-- Nodes in other groups, or with less of what is not drawn: a group gives way
    to its children, or a description, a text, a comment or an instruction goes,
    at any depth. -/
inductive Regroups : List Xml.Node → List Xml.Node → Prop where
  | group (attributes : List Xml.Attribute) (children ns : List Xml.Node) :
    Regroups (.element Leaf.groupName attributes children :: ns) (children ++ ns)
  | description {name : String} (h : Leaf.isDescription name = true) (attributes : List Xml.Attribute)
      (children ns : List Xml.Node) : Regroups (.element name attributes children :: ns) ns
  | text (content : List Char) (ns : List Xml.Node) : Regroups (.text content :: ns) ns
  | comment (content : List Char) (ns : List Xml.Node) : Regroups (.comment content :: ns) ns
  | instruction (target content : List Char) (ns : List Xml.Node) :
    Regroups (.instruction target content :: ns) ns
  | inside {ms ms' : List Xml.Node} (h : Regroups ms ms') (name : String)
      (attributes : List Xml.Attribute) (ns : List Xml.Node) :
    Regroups (.element name attributes ms :: ns) (.element name attributes ms' :: ns)
  | later {ns ns' : List Xml.Node} (h : Regroups ns ns') (n : Xml.Node) :
    Regroups (n :: ns) (n :: ns')

/-- **Regrouping keeps the row of leaves.** -/
theorem Regroups.leaves {ns ns' : List Xml.Node} (h : Regroups ns ns') :
    Leaf.ofNodes ns' = Leaf.ofNodes ns := by
  induction h with
  | group attributes children ns =>
    rw [Leaf.ofNodes_append, Leaf.ofNodes, Leaf.ofNode, if_pos rfl]
  | @description name h attributes children ns =>
    have hgroup : name ≠ Leaf.groupName := by
      rintro rfl
      exact absurd h (by decide)
    rw [Leaf.ofNodes, Leaf.ofNode, if_neg hgroup, if_pos h, List.nil_append]
  | text | comment | instruction => rfl
  | inside _ name attributes ns ih => rw [Leaf.ofNodes, Leaf.ofNodes, Leaf.ofNode, Leaf.ofNode, ih]
  | later _ n ih => rw [Leaf.ofNodes, Leaf.ofNodes, ih]

/-! ## §3. The walk. -/

namespace Drawing

section Walk

variable (excluded : Element → Bool)

/-- The paths of the elements which are kept. -/
def keptPaths (es : List Element) : List PathElement :=
  (es.filter (! excluded ·)).map Element.toPath

theorem keptPaths_append (es es' : List Element) :
    keptPaths excluded (es ++ es') = keptPaths excluded es ++ keptPaths excluded es' := by
  rw [keptPaths, List.filter_append, List.map_append]
  rfl

/-- What a walk gives whose leaves are read as the given elements. -/
def collected (paths : List PathElement) (es : List Element) : List PathElement :=
  paths ++ keptPaths excluded es

mutual

theorem collectNode_eq (paths : List PathElement) : (n : Xml.Node) →
    collectNode excluded paths n =
      collected excluded paths <$> (Leaf.ofNode n).mapM Leaf.element
  | .element name attributes children => by
    rw [collectNode, Leaf.ofNode]
    by_cases hgroup : name = Leaf.groupName
    · rw [if_pos hgroup, if_pos hgroup]
      exact collect_eq paths children
    · rw [if_neg hgroup, if_neg hgroup]
      by_cases hdescription : Leaf.isDescription name = true
      · rw [if_pos hdescription, if_pos hdescription]
        exact congrArg Except.ok (List.append_nil paths).symm
      · rw [if_neg hdescription, if_neg hdescription, List.mapM_cons]
        cases hread : Leaf.element ⟨name, attributes⟩ with
        | error e => rfl
        | ok e =>
          show Except.ok (if excluded e = true then paths else paths ++ [e.toPath]) =
            Except.ok (collected excluded paths [e])
          by_cases hexcluded : excluded e = true
          · simp [collected, keptPaths, hexcluded]
          · simp [collected, keptPaths, hexcluded]
  | .text _ | .comment _ | .instruction _ _ => congrArg Except.ok (List.append_nil paths).symm

/-- **One walk collects what all leaves give**, one after the other. -/
theorem collect_eq (paths : List PathElement) : (ns : List Xml.Node) →
    collect excluded paths ns =
      collected excluded paths <$> (Leaf.ofNodes ns).mapM Leaf.element
  | [] => congrArg Except.ok (List.append_nil paths).symm
  | n :: ns => by
    rw [collect, collectNode_eq paths n, Leaf.ofNodes, List.mapM_append]
    cases (Leaf.ofNode n).mapM Leaf.element with
    | error e => rfl
    | ok es =>
      show collect excluded (collected excluded paths es) ns = _
      rw [collect_eq _ ns]
      cases (Leaf.ofNodes ns).mapM Leaf.element with
      | error e => rfl
      | ok es' =>
        show Except.ok _ = Except.ok (collected excluded paths (es ++ es'))
        rw [collected, collected, collected, keptPaths_append, List.append_assoc]

end

theorem collect_nil_eq (ns : List Xml.Node) :
    collect excluded [] ns = keptPaths excluded <$> (Leaf.ofNodes ns).mapM Leaf.element :=
  collect_eq excluded [] ns

/-- **A walk succeeds** if all leaves are drawn, with the paths which are kept. -/
theorem collect_ok_iff {ns : List Xml.Node} {ps : List PathElement} :
    collect excluded [] ns = .ok ps ↔
      ∃ es, List.Forall₂ Leaf.Draws (Leaf.ofNodes ns) es ∧ ps = keptPaths excluded es := by
  have hreads {es : List Element} : (Leaf.ofNodes ns).mapM Leaf.element = .ok es ↔
      List.Forall₂ Leaf.Draws (Leaf.ofNodes ns) es := by
    simp only [List.mapM_ok_iff, Leaf.element_iff]
  rw [collect_nil_eq]
  constructor
  · intro h
    cases hes : (Leaf.ofNodes ns).mapM Leaf.element with
    | error e =>
      rw [hes] at h
      cases h
    | ok es =>
      rw [hes] at h
      cases h
      exact ⟨es, hreads.1 hes, rfl⟩
  · rintro ⟨es, hes, rfl⟩
    rw [hreads.2 hes]
    rfl

/-- **A walk fails** at the first leaf which can not be read. -/
theorem collect_error_iff {ns : List Xml.Node} {error : Error} :
    collect excluded [] ns = .error error ↔
      ∃ before l after, Leaf.ofNodes ns = before ++ l :: after ∧ (∀ k ∈ before, ∃ e, k.Draws e) ∧
        l.element = .error error := by
  have herror : collect excluded [] ns = .error error ↔
      (Leaf.ofNodes ns).mapM Leaf.element = .error error := by
    rw [collect_nil_eq]
    cases (Leaf.ofNodes ns).mapM Leaf.element with
    | error e =>
      show Except.error e = _ ↔ Except.error e = _
      rw [Except.error.injEq, Except.error.injEq]
    | ok es =>
      constructor
      · intro h
        cases h
      · intro h
        cases h
  simp only [herror, List.mapM_error_iff, Leaf.element_iff]

/-- Regrouping does not change what is collected. -/
theorem collect_regroups {ns ns' : List Xml.Node} (h : Relation.EqvGen Regroups ns ns') :
    collect excluded [] ns' = collect excluded [] ns := by
  have hleaves : Leaf.ofNodes ns' = Leaf.ofNodes ns := by
    induction h with
    | rel _ _ h => exact h.leaves
    | refl => rfl
    | symm _ _ _ ih => exact ih.symm
    | trans _ _ _ _ _ ih ih' => exact ih'.trans ih
  rw [collect_nil_eq, collect_nil_eq, hleaves]

/-! ## §4. The walk makes the drawing. -/

/-- **The drawing of a tree is made in one walk.** -/
theorem ofTree_eq_walk (root : Xml.Node) : ofTree excluded root = walk excluded root := by
  cases root with
  | element name attributes children =>
    have hcollect := collect_nil_eq excluded children
    unfold ofTree walk
    cases hes : (Leaf.ofNodes children).mapM Leaf.element with
    | error e =>
      rw [hes] at hcollect
      simp only [hcollect, hes]
      rfl
    | ok es =>
      rw [hes] at hcollect
      simp only [hcollect, hes]
      rfl
  | text | comment | instruction => rfl

section Root

variable {excluded} {attributes : List Xml.Attribute} {children : List Xml.Node}

theorem walk_root : walk excluded (.element rootName attributes children) =
    collect excluded [] children >>= fun ps =>
      if ps.isEmpty then .error .emptyDrawing
      else (⟨·, ps⟩) <$> Canvas.ofAttributes attributes := by
  show (collect excluded [] children >>= _) = _
  cases collect excluded [] children with
  | error e => rfl
  | ok ps =>
    by_cases hps : ps.isEmpty = true
    · show (if ps.isEmpty = true then _ else _) = (if ps.isEmpty = true then _ else _)
      rw [if_pos hps, if_pos hps]
      rfl
    · show (if ps.isEmpty = true then _ else _) = (if ps.isEmpty = true then _ else _)
      rw [if_neg hps, if_neg hps]
      cases Canvas.ofAttributes attributes <;> rfl

/-- A drawing has the paths which the walk collects, and the canvas of the root. -/
theorem ofTree_ok_iff {d : Drawing} : ofTree excluded (.element rootName attributes children) = .ok d ↔
    collect excluded [] children = .ok d.paths ∧ d.paths ≠ [] ∧
      Canvas.ofAttributes attributes = .ok d.canvas := by
  rw [ofTree_eq_walk, walk_root, Except.bind_eq_ok]
  constructor
  · rintro ⟨ps, hps, h⟩
    split at h
    · cases h
    · next hne =>
      cases hcanvas : Canvas.ofAttributes attributes with
      | error e =>
        rw [hcanvas] at h
        cases h
      | ok canvas =>
        rw [hcanvas] at h
        cases h
        exact ⟨hps, fun hnil => hne (List.isEmpty_iff.2 hnil), rfl⟩
  · rintro ⟨hps, hne, hcanvas⟩
    refine ⟨d.paths, hps, ?_⟩
    rw [if_neg fun hnil => hne (List.isEmpty_iff.1 hnil), hcanvas]
    rfl

end Root

end Walk

end Drawing

/-! ## §5. Flat documents. -/

namespace PathElement

/-- A path as markup, without opacities. -/
def node (p : PathElement) : Xml.Node :=
  .element "path" [⟨none, "d", p.data.toList⟩, ⟨none, "fill", p.paint.fill.toList⟩] []

/-- The same path without opacities. -/
def plain (p : PathElement) : PathElement := ⟨p.data, ⟨p.paint.fill, none, none⟩⟩

/-- The leaf of a path which is written as markup. -/
def leaf (p : PathElement) : Leaf :=
  ⟨"path", [⟨none, "d", p.data.toList⟩, ⟨none, "fill", p.paint.fill.toList⟩]⟩

theorem ofNodes_node (ps : List PathElement) : Leaf.ofNodes (ps.map node) = ps.map leaf := by
  induction ps with
  | nil => rfl
  | cons p ps ih =>
    rw [List.map_cons, List.map_cons, Leaf.ofNodes, ih]
    rfl

/-- **A path which is written as markup is read as itself.** -/
theorem element_leaf (p : PathElement) : p.leaf.element = .ok (.ofPath p.plain) := by
  have hdata : Attribute.textOf p.leaf.attributes "d" = p.data.toList := rfl
  have hfill : Attribute.textOf p.leaf.attributes "fill" = p.paint.fill.toList := rfl
  have hopacity : Attribute.optional p.leaf.attributes "opacity" Attribute.opacity = .ok none := rfl
  have hfillOpacity : Attribute.optional p.leaf.attributes "fill-opacity" Attribute.opacity = .ok none :=
    rfl
  have hshape : p.leaf.shape = .ok (.path p.data) := by
    show Except.ok (Shape.path (String.ofList (Attribute.textOf p.leaf.attributes "d"))) = _
    rw [hdata, String.ofList_toList]
  have hpaint : p.leaf.paint = .ok p.plain.paint := by
    unfold Leaf.paint
    rw [hfillOpacity, hopacity, hfill]
    show Except.ok (Paint.mk (String.ofList p.paint.fill.toList) none none) = _
    rw [String.ofList_toList]
    rfl
  unfold Leaf.element
  rw [hshape, hpaint]
  rfl

/-- The elements of a flat document are its paths. -/
theorem mapM_element_leaf (ps : List PathElement) :
    (ps.map leaf).mapM Leaf.element = .ok (ps.map fun p => .ofPath p.plain) := by
  induction ps with
  | nil => rfl
  | cons p ps ih =>
    rw [List.map_cons, List.mapM_cons, element_leaf, ih]
    rfl

end PathElement

/-- The walk over a flat document collects the paths which are kept. -/
theorem Drawing.collect_flat (excluded : Element → Bool) (ps : List PathElement) :
    collect excluded [] (ps.map PathElement.node) =
      .ok ((ps.map PathElement.plain).filter fun p => ! excluded (.ofPath p)) := by
  rw [collect_nil_eq, PathElement.ofNodes_node, PathElement.mapM_element_leaf]
  show Except.ok (keptPaths excluded (ps.map fun p => Element.ofPath p.plain)) = _
  rw [keptPaths, List.filter_map, List.map_map, List.filter_map]
  rfl

/-! ## §6. Drawings of documents. -/

/-- **A drawing is its leaves in document order.**  It is made in one walk; the
    walk gives the paths of the leaves which are kept, in document order, or the
    error of the first leaf which can not be read, whether it would be kept or
    not; groups, descriptions, texts and comments leave no trace, neither in the
    drawing nor in the error; and a drawing which is written as a flat document is
    drawn again as it is, but for what is excluded now. -/
theorem Drawing.ofTree_inOrder (excluded : Element → Bool) (attributes : List Xml.Attribute)
    (children : List Xml.Node) :
    ofTree excluded (.element rootName attributes children) =
      walk excluded (.element rootName attributes children) ∧
    (∀ d, ofTree excluded (.element rootName attributes children) = .ok d →
      collect excluded [] children = .ok d.paths) ∧
    (∀ error, collect excluded [] children = .error error →
      ofTree excluded (.element rootName attributes children) = .error error) ∧
    (∀ ps, collect excluded [] children = .ok ps ↔
      ∃ es, List.Forall₂ Leaf.Draws (Leaf.ofNodes children) es ∧
        ps = (es.filter (! excluded ·)).map Element.toPath) ∧
    (∀ error, collect excluded [] children = .error error ↔
      ∃ before l after, Leaf.ofNodes children = before ++ l :: after ∧
        (∀ k ∈ before, ∃ e, k.Draws e) ∧ l.element = .error error) ∧
    (∀ children', Relation.EqvGen Regroups children children' →
      collect excluded [] children' = collect excluded [] children ∧
      ofTree excluded (.element rootName attributes children') =
        ofTree excluded (.element rootName attributes children)) ∧
    ∀ d, ofTree excluded (.element rootName attributes children) = .ok d →
      ∃ ps, ps = (d.paths.map PathElement.plain).filter (fun p => ! excluded (.ofPath p)) ∧
        ofTree excluded (.element rootName attributes (d.paths.map PathElement.node)) =
          if ps = [] then .error .emptyDrawing else .ok ⟨d.canvas, ps⟩ := by
  refine ⟨ofTree_eq_walk excluded _, fun d h => (ofTree_ok_iff.1 h).1, fun error h => ?_,
    fun ps => collect_ok_iff excluded, fun error => collect_error_iff excluded, fun children' h => ?_,
    fun d h => ⟨_, rfl, ?_⟩⟩
  · rw [ofTree_eq_walk, walk_root, h]
    rfl
  · have hcollect := collect_regroups excluded h
    refine ⟨hcollect, ?_⟩
    rw [ofTree_eq_walk, ofTree_eq_walk, walk_root, walk_root, hcollect]
  · obtain ⟨-, -, hcanvas⟩ := ofTree_ok_iff.1 h
    rw [ofTree_eq_walk, walk_root, collect_flat, hcanvas]
    simp only [List.isEmpty_iff]
    rfl

/-- The frame of an icon, a rectangle and a circle. -/
def flatNodes : List Xml.Node :=
  [.element "path" [⟨none, "d", "M0 0h24v24H0V0z".toList⟩] [],
    .element "rect" [⟨none, "width", ['2']⟩, ⟨none, "height", ['3']⟩, ⟨none, "fill", "#f00".toList⟩] [],
    .element "circle" [⟨none, "r", "4px".toList⟩, ⟨none, "opacity", "50%".toList⟩] []]

/-- The same in groups, with a title whose content is not drawn. -/
def nestedNodes : List Xml.Node :=
  [.text ['\n'],
    .element "g" [⟨none, "fill", "none".toList⟩]
      [.element "title" [] [.element "script" [] []], .element "path" [⟨none, "d", "M0 0h24v24H0V0z".toList⟩] [],
        .element "g" [] [.element "rect"
          [⟨none, "width", ['2']⟩, ⟨none, "height", ['3']⟩, ⟨none, "fill", "#f00".toList⟩] []]],
    .comment [' '],
    .element "circle" [⟨none, "r", "4px".toList⟩, ⟨none, "opacity", "50%".toList⟩] []]

theorem nestedNodes_regroups : Relation.EqvGen Regroups nestedNodes flatNodes := by
  refine .trans _ _ _ (.rel _ _ (.text _ _)) (.trans _ _ _ (.rel _ _ (.group _ _ _)) ?_)
  refine .trans _ _ _ (.rel _ _ (.description rfl _ _ _)) ?_
  exact .trans _ _ _ (.rel _ _ (.later (.group _ _ _) _)) (.rel _ _ (.later (.later (.comment _ _) _) _))

theorem Drawing.ofTree_inOrder_nestedNodes :
    ∃ d, ofTree Exclusions.default.excludes
        (.element rootName [⟨none, "viewBox", "0 0 24 24".toList⟩] nestedNodes) = .ok d ∧
      collect Exclusions.default.excludes [] nestedNodes = .ok d.paths ∧
      ofTree Exclusions.default.excludes
        (.element rootName [⟨none, "viewBox", "0 0 24 24".toList⟩] flatNodes) = .ok d ∧
      ofTree Exclusions.default.excludes
        (.element rootName [⟨none, "viewBox", "0 0 24 24".toList⟩] (d.paths.map PathElement.node)) =
          .ok ⟨d.canvas, d.paths.map PathElement.plain⟩ ∧
      ofTree Exclusions.default.excludes
        (.element rootName [] (nestedNodes ++ [.element "rect"
          [⟨none, "fill", "none".toList⟩, ⟨none, "width", ['x']⟩] []])) =
        .error (Attribute.invalid "width" ['x']) := by
  obtain ⟨d, hd⟩ : ∃ d, ofTree Exclusions.default.excludes
      (.element rootName [⟨none, "viewBox", "0 0 24 24".toList⟩] nestedNodes) = .ok d :=
    Except.exists_ok (by decide +kernel)
  obtain ⟨-, hpaths, -, -, -, hregroup, hagain⟩ := ofTree_inOrder Exclusions.default.excludes
    [⟨none, "viewBox", "0 0 24 24".toList⟩] nestedNodes
  obtain ⟨-, -, herror, -, hfirst, -, -⟩ := ofTree_inOrder Exclusions.default.excludes []
    (nestedNodes ++ [.element "rect" [⟨none, "fill", "none".toList⟩, ⟨none, "width", ['x']⟩] []])
  have hkept : (collect Exclusions.default.excludes [] nestedNodes).toOption.all (fun ps =>
      (ps.map PathElement.plain).all (fun p => ! Exclusions.default.excludes (.ofPath p))) = true := by
    decide +kernel
  rw [hpaths d hd] at hkept
  refine ⟨d, hd, hpaths d hd, ((hregroup _ nestedNodes_regroups).2).trans hd, ?_, herror _ ?_⟩
  · obtain ⟨ps, hps, hflat⟩ := hagain d hd
    rw [List.filter_eq_self.2 (List.all_eq_true.1 hkept)] at hps
    have hne := (ofTree_ok_iff.1 hd).2.1
    rw [hflat, hps, if_neg fun hnil => hne (List.map_eq_nil_iff.1 hnil)]
  · refine (hfirst _).2 ⟨Leaf.ofNodes nestedNodes,
      ⟨"rect", [⟨none, "fill", "none".toList⟩, ⟨none, "width", ['x']⟩]⟩, [], rfl, fun k hk => ?_, rfl⟩
    have hall : (Leaf.ofNodes nestedNodes).all (fun l => l.element.toOption.isSome) = true := by
      decide +kernel
    obtain ⟨e, he⟩ := Except.exists_ok (List.all_eq_true.1 hall k hk)
    exact ⟨e, Leaf.element_draws he⟩

end VectorIcon

/-
  VectorIcon.Proofs.Drawing.Exclusion
  ────────────────────────────────
  **EXCLUDING ELEMENTS ONLY TAKES PATHS AWAY.**

  A document is read in stages: its elements, which of them are kept, its canvas
  (`Drawing.parse_eq`).  What is excluded enters in the middle only.  It can not
  turn one problem of the elements into another, nor hide one
  (`Drawing.Rejects`); it decides which paths there are, and, where none is left,
  that the drawing is empty, whatever is the matter with the canvas.

      Drawing.rejects_iff     — the problems of the elements
      Drawing.mem_kept_or     — what two predicates keep together
      Drawing.parse_excluding — the same document with and without exclusions
-/
import VectorIcon.Proofs.Drawing.Walk

namespace VectorIcon

namespace Drawing

/-! ## §1. Stages. -/

/-- The elements of an element tree, excluded or not. -/
def elementsOfTree : Xml.Node → Except Error (List Element)
  | .element name _ children =>
    if name = rootName then (Leaf.ofNodes children).mapM Leaf.element
    else .error (.unsupportedElement name)
  | .text _ | .comment _ | .instruction _ _ => .error (.markup .notWellFormed)

/-- The canvas of an element tree. -/
def canvasOfTree : Xml.Node → Except Error Canvas
  | .element _ attributes _ => Canvas.ofAttributes attributes
  | .text _ | .comment _ | .instruction _ _ => .error (.markup .notWellFormed)

/-- The elements of a document, excluded or not. -/
def elementsOf (text : List Char) : Except Error (List Element) :=
  match Xml.parse text with
  | .ok root => elementsOfTree root
  | .error _ => .error (.markup .notWellFormed)

/-- The canvas of a document. -/
def canvasOf (text : List Char) : Except Error Canvas :=
  match Xml.parse text with
  | .ok root => canvasOfTree root
  | .error _ => .error (.markup .notWellFormed)

section Stages

variable (excluded : Element → Bool)

theorem keptPaths_isEmpty (es : List Element) :
    (keptPaths excluded es).isEmpty = es.all excluded := by
  rw [keptPaths, List.isEmpty_map, Bool.eq_iff_iff, List.isEmpty_iff, List.filter_eq_nil_iff,
    List.all_eq_true]
  simp only [Bool.not_eq_true', Bool.not_eq_false]

theorem ofTree_eq (root : Xml.Node) :
    ofTree excluded root = elementsOfTree root >>= fun es =>
      if es.all excluded then .error .emptyDrawing
      else (⟨·, keptPaths excluded es⟩) <$> canvasOfTree root := by
  cases root with
  | element name attributes children =>
    rw [ofTree_eq_walk]
    by_cases hname : name = rootName
    · rw [hname, walk_root, collect_nil_eq, elementsOfTree, if_pos rfl]
      cases (Leaf.ofNodes children).mapM Leaf.element with
      | error e => rfl
      | ok es =>
        show (if (keptPaths excluded es).isEmpty = true then _ else _) = if es.all excluded = true then _ else _
        rw [keptPaths_isEmpty]
        rfl
    · rw [elementsOfTree, if_neg hname]
      show (if name ≠ rootName then _ else _) = _
      rw [if_pos hname]
      rfl
  | text | comment | instruction => rfl

/-- **A document is read in stages.**  The elements do not depend on what is
    excluded, and the canvas is looked at if an element is left. -/
theorem parse_eq (text : List Char) :
    parse excluded text = elementsOf text >>= fun es =>
      if es.all excluded then .error .emptyDrawing
      else (⟨·, keptPaths excluded es⟩) <$> canvasOf text := by
  unfold parse elementsOf canvasOf
  cases Xml.parse text with
  | error fault => rfl
  | ok root => exact ofTree_eq excluded root

end Stages

/-! ## §2. Problems of the elements. -/

/-- What is the matter with a document before its canvas is looked at. -/
inductive Rejects (text : List Char) : Error → Prop where
  /-- It is not the markup of an element. -/
  | notWellFormed (h : ∀ name attributes children,
      Xml.parse text ≠ .ok (.element name attributes children)) : Rejects text (.markup .notWellFormed)
  /-- The root has another name. -/
  | root {name : String} {attributes : List Xml.Attribute} {children : List Xml.Node}
      (h : Xml.parse text = .ok (.element name attributes children)) (hname : name ≠ rootName) :
      Rejects text (.unsupportedElement name)
  /-- A leaf can not be read, and all leaves before it can. -/
  | leaf {attributes : List Xml.Attribute} {children : List Xml.Node} {before after : List Leaf}
      {l : Leaf} {error : Error} (h : Xml.parse text = .ok (.element rootName attributes children))
      (hleaves : Leaf.ofNodes children = before ++ l :: after)
      (hbefore : ∀ k ∈ before, ∃ e, k.Draws e) (hl : l.element = .error error) : Rejects text error
  /-- There is no leaf. -/
  | empty {attributes : List Xml.Attribute} {children : List Xml.Node}
      (h : Xml.parse text = .ok (.element rootName attributes children))
      (hleaves : Leaf.ofNodes children = []) : Rejects text .emptyDrawing

/-- **The elements can not be drawn** because one can not be read, or because
    there is none. -/
theorem rejects_iff {text : List Char} {error : Error} :
    Rejects text error ↔
      elementsOf text = .error error ∨ elementsOf text = .ok [] ∧ error = .emptyDrawing := by
  unfold elementsOf
  constructor
  · intro h
    cases h with
    | notWellFormed h =>
      left
      cases hparse : Xml.parse text with
      | error => rfl
      | ok root =>
        cases root with
        | element => exact absurd hparse (h _ _ _)
        | text | comment | instruction => rfl
    | root h hname =>
      left
      rw [h]
      show elementsOfTree _ = _
      rw [elementsOfTree, if_neg hname]
    | leaf h hleaves hbefore hl =>
      left
      rw [h]
      show elementsOfTree _ = _
      rw [elementsOfTree, if_pos rfl]
      exact List.mapM_error_iff.2 ⟨_, _, _, hleaves, fun k hk => (hbefore k hk).imp fun _ he => he.reads, hl⟩
    | empty h hleaves =>
      right
      rw [h]
      refine ⟨?_, rfl⟩
      show elementsOfTree _ = _
      rw [elementsOfTree, if_pos rfl, hleaves]
      rfl
  · cases hparse : Xml.parse text with
    | error fault =>
      rintro (h | ⟨h, -⟩)
      · cases h
        exact .notWellFormed fun _ _ _ h => by rw [hparse] at h; cases h
      · cases h
    | ok root =>
      cases root with
      | element name attributes children =>
        simp only [elementsOfTree]
        by_cases hname : name = rootName
        · subst hname
          rw [if_pos rfl]
          rintro (h | ⟨h, rfl⟩)
          · obtain ⟨before, l, after, hleaves, hbefore, hl⟩ := List.mapM_error_iff.1 h
            exact .leaf hparse hleaves (fun k hk => (hbefore k hk).imp fun _ he => Leaf.element_draws he) hl
          · refine .empty hparse ?_
            exact List.forall₂_nil_right_iff.1 (List.mapM_ok_iff.1 h)
        · rw [if_neg hname]
          rintro (h | ⟨h, -⟩)
          · cases h
            exact .root hparse hname
          · cases h
      | text | comment | instruction =>
        rintro (h | ⟨h, -⟩)
        · cases h
          exact .notWellFormed fun _ _ _ h => by rw [hparse] at h; cases h
        · cases h

/-! ## §3. What is kept. -/

/-- The elements which are kept, each with its place among all. -/
def kept (excluded : Element → Bool) (es : List Element) : List (Element × ℕ) :=
  es.zipIdx.filter (! excluded ·.1)

theorem keptPaths_eq (excluded : Element → Bool) (es : List Element) :
    keptPaths excluded es = (kept excluded es).map (·.1.toPath) := by
  have hfst : es = es.zipIdx.map Prod.fst := (List.zipIdx_map_fst 0 es).symm
  unfold keptPaths kept
  conv_lhs => rw [hfst, List.filter_map, List.map_map]
  rfl

/-- Of what either of two predicates excludes, that is kept which both keep. -/
theorem mem_kept_or {p q : Element → Bool} {es : List Element} {place : Element × ℕ} :
    place ∈ kept (fun e => p e || q e) es ↔ place ∈ kept p es ∧ place ∈ kept q es := by
  simp only [kept, List.mem_filter, Bool.not_or, Bool.and_eq_true]
  tauto

/-! ## §4. With and without exclusions. -/

section Parse

variable {text : List Char}

theorem none_excludes (e : Element) : Exclusions.none.excludes e = false := rfl

/-- What is left of a drawing. -/
theorem parse_ok_excluding {d : Drawing} (h : parse Exclusions.none.excludes text = .ok d) :
    ∃ es, elementsOf text = .ok es ∧ d.paths = es.map Element.toPath ∧
      ∀ excluded, parse excluded text =
        if es.all excluded then .error .emptyDrawing
        else .ok ⟨d.canvas, (kept excluded es).map (·.1.toPath)⟩ := by
  rw [parse_eq, Except.bind_eq_ok] at h
  obtain ⟨es, hes, h⟩ := h
  split at h
  · cases h
  · cases hcanvas : canvasOf text with
    | error e =>
      rw [hcanvas] at h
      cases h
    | ok c =>
      rw [hcanvas] at h
      cases h
      refine ⟨es, hes, ?_, fun excluded => ?_⟩
      · show keptPaths _ es = _
        rw [keptPaths, List.filter_eq_self.2 fun e _ => by rw [none_excludes]; rfl]
      · rw [parse_eq, hes, hcanvas]
        show (if es.all excluded = true then _ else _) = _
        rw [keptPaths_eq]
        split <;> rfl

/-- A problem of the elements is met whatever is excluded. -/
theorem parse_rejects {error : Error} (h : Rejects text error) (excluded : Element → Bool) :
    parse excluded text = .error error := by
  rw [parse_eq]
  rcases rejects_iff.1 h with hes | ⟨hes, rfl⟩
  · rw [hes]
    rfl
  · rw [hes]
    rfl

/-- Any other problem is that of the canvas, which is looked at last. -/
theorem parse_error_excluding {error : Error} (h : parse Exclusions.none.excludes text = .error error) :
    Rejects text error ∨
      ∃ es, elementsOf text = .ok es ∧ es ≠ [] ∧ canvasOf text = .error error ∧
        ∀ excluded, parse excluded text = .error (if es.all excluded then .emptyDrawing else error) := by
  rw [parse_eq] at h
  cases hes : elementsOf text with
  | error e =>
    rw [hes] at h
    cases h
    exact .inl (rejects_iff.2 (.inl hes))
  | ok es =>
    cases es with
    | nil =>
      rw [hes] at h
      cases h
      exact .inl (rejects_iff.2 (.inr ⟨hes, rfl⟩))
    | cons e es =>
      rw [hes] at h
      -- nothing is excluded, so the canvas is looked at
      have hall : (e :: es).all Exclusions.none.excludes = false := by
        rw [List.all_cons, none_excludes, Bool.false_and]
      replace h : (if (e :: es).all Exclusions.none.excludes = true then Except.error Error.emptyDrawing
          else (Drawing.mk · (keptPaths Exclusions.none.excludes (e :: es))) <$> canvasOf text) =
            .error error := h
      rw [hall, if_neg Bool.false_ne_true] at h
      cases hcanvas : canvasOf text with
      | ok c =>
        rw [hcanvas] at h
        cases h
      | error f =>
        rw [hcanvas] at h
        cases h
        refine .inr ⟨e :: es, rfl, List.cons_ne_nil _ _, rfl, fun excluded => ?_⟩
        rw [parse_eq, hes, hcanvas]
        show (if _ then _ else _) = _
        split <;> rfl

end Parse

/-- **Excluding elements only takes paths away.**  If a document has a drawing
    without exclusions, then with them it has the same canvas and those of its
    paths whose elements are kept, or it is empty if none is.  If the elements can
    not be drawn, the problem is the same, even where an element which can not be
    read would be excluded.  If only the canvas is missing, so it is with
    exclusions, unless there is nothing left to be drawn.  And two predicates at
    once leave what each of them leaves. -/
theorem parse_excluding (text : List Char) :
    (∀ d, parse Exclusions.none.excludes text = .ok d →
      ∃ es, elementsOf text = .ok es ∧ d.paths = es.map Element.toPath ∧
        ∀ excluded, parse excluded text =
          if es.all excluded then .error .emptyDrawing
          else .ok ⟨d.canvas, (kept excluded es).map (·.1.toPath)⟩) ∧
    (∀ error, Rejects text error → ∀ excluded, parse excluded text = .error error) ∧
    (∀ error, parse Exclusions.none.excludes text = .error error →
      Rejects text error ∨
      ∃ es, elementsOf text = .ok es ∧ es ≠ [] ∧ canvasOf text = .error error ∧
        ∀ excluded, parse excluded text = .error (if es.all excluded then .emptyDrawing else error)) ∧
    ∀ es, elementsOf text = .ok es → ∀ p q place,
      place ∈ kept (fun e => p e || q e) es ↔ place ∈ kept p es ∧ place ∈ kept q es := by
  exact ⟨fun _ h => parse_ok_excluding h, fun _ h excluded => parse_rejects h excluded,
    fun _ h => parse_error_excluding h, fun _ _ _ _ _ => mem_kept_or⟩

/-- A rectangle and a path which is not filled. -/
def mixedMarkup : List Char :=
  "<svg viewBox='0 0 4 4'><rect width='2' height='2'/><g><path d='M1 1h1' fill='none'/></g></svg>".toList

/-- A path which is not filled, and no canvas. -/
def boundlessMarkup : List Char := "<svg><path d='M1 1h1' fill='none'/></svg>".toList

/-- A rectangle which is not filled and whose width is no number. -/
def unreadMarkup : List Char := "<svg><rect width='x' fill='none'/></svg>".toList

/-- Whether elements are refused for that width. -/
def refusesWidth : Except Error (List Element) → Bool
  | .error (.markup (.invalidAttribute name value)) => decide (name = "width" ∧ value = ['x'])
  | _ => false

theorem parse_excluding_markup :
    (∃ d es, parse Exclusions.none.excludes mixedMarkup = .ok d ∧ elementsOf mixedMarkup = .ok es ∧
      d.paths = es.map Element.toPath ∧
      parse Exclusions.default.excludes mixedMarkup =
        .ok ⟨d.canvas, (kept Exclusions.default.excludes es).map (·.1.toPath)⟩ ∧
      ∀ place, place ∈ kept (fun e => Exclusions.default.excludes e || e.name == "rect") es ↔
        place ∈ kept Exclusions.default.excludes es ∧ place ∈ kept (·.name == "rect") es) ∧
    (∃ error, parse Exclusions.none.excludes boundlessMarkup = .error error ∧
      canvasOf boundlessMarkup = .error error ∧
      parse Exclusions.default.excludes boundlessMarkup = .error .emptyDrawing) ∧
    Rejects unreadMarkup (Attribute.invalid "width" ['x']) ∧
      parse Exclusions.default.excludes unreadMarkup = .error (Attribute.invalid "width" ['x']) := by
  refine ⟨?_, ?_, ?_⟩
  · obtain ⟨d, hd⟩ : ∃ d, parse Exclusions.none.excludes mixedMarkup = .ok d :=
      Except.exists_ok (by decide +kernel)
    obtain ⟨hdrawn, -, -, hor⟩ := parse_excluding mixedMarkup
    obtain ⟨es, hes, hpaths, hexcluded⟩ := hdrawn d hd
    have hleft : (elementsOf mixedMarkup).toOption.all
        (fun es => ! es.all Exclusions.default.excludes) = true := by
      decide +kernel
    rw [hes] at hleft
    change (! es.all Exclusions.default.excludes) = true at hleft
    refine ⟨d, es, hd, hes, hpaths, ?_, hor es hes _ _⟩
    rw [hexcluded, if_neg (by simpa using hleft)]
  · have herror : (parse Exclusions.none.excludes boundlessMarkup).toOption.isNone = true := by
      decide +kernel
    have hsome : (elementsOf boundlessMarkup).toOption.any (fun es => ! es.isEmpty) = true := by
      decide +kernel
    have hnone : (elementsOf boundlessMarkup).toOption.all
        (fun es => es.all Exclusions.default.excludes) = true := by
      decide +kernel
    obtain ⟨-, -, hfails, -⟩ := parse_excluding boundlessMarkup
    cases hparse : parse Exclusions.none.excludes boundlessMarkup with
    | ok d =>
      rw [hparse] at herror
      cases herror
    | error error =>
      rcases hfails error hparse with hrejects | ⟨es, hes, -, hcanvas, hexcluded⟩
      · rcases rejects_iff.1 hrejects with hes | ⟨hes, -⟩
        · rw [hes] at hsome
          cases hsome
        · rw [hes] at hsome
          cases hsome
      · rw [hes] at hnone
        change es.all Exclusions.default.excludes = true at hnone
        refine ⟨error, rfl, hcanvas, ?_⟩
        rw [hexcluded, if_pos hnone]
  · obtain ⟨-, hrejects, -, -⟩ := parse_excluding unreadMarkup
    have herror : refusesWidth (elementsOf unreadMarkup) = true := by decide +kernel
    have hunread : Rejects unreadMarkup (Attribute.invalid "width" ['x']) := by
      refine rejects_iff.2 (.inl ?_)
      unfold refusesWidth at herror
      split at herror
      · next h =>
        obtain ⟨rfl, rfl⟩ := of_decide_eq_true herror
        exact h
      · cases herror
    exact ⟨hunread, hrejects _ hunread _⟩

end Drawing

end VectorIcon

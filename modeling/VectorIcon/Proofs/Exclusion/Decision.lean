/-
  VectorIcon.Proofs.Exclusion.Decision
  ────────────────────────────────
  **WHICH ELEMENTS ARE EXCLUDED.**

  Two elements are the same if they are of one kind and have the same numbers,
  data, closing and fill, where the two zeros are the same number
  (`Element.Same`).  Comparing an element without NaN tells whether it is the
  same as another (`Element.beq_iff`), hence which rules cover it.

  A rule set is changed step by step.  A change brings rules, and two kinds of
  changes drop those which were there (`Exclusions.rules_change`); what is there
  after a run of changes is what was brought since the last of these
  (`Exclusions.mem_after`).

  Main result:
    * `Exclusions.excludes_decision`.
-/
import VectorIcon.Exclusion
import VectorIcon.Proofs.Element.Json
import VectorIcon.Proofs.Number.Agreement

namespace VectorIcon

open Float.Model Float.Model.UnpackedFloat

/-! ## §1. Equal numbers. -/

namespace Scalar

/-- One of the two zeros. -/
def IsZero (x : Scalar) : Prop := x = 0.0 ∨ x = -0.0

/-- The same number, or two zeros. -/
def Same (a b : Scalar) : Prop := a = b ∨ IsZero a ∧ IsZero b

theorem isZero_iff (x : Scalar) : IsZero x ↔ ∃ s, x.unpacked = .zero s := by
  have hpositive : unpacked 0.0 = .zero .positive := rfl
  have hnegative : unpacked (-0.0) = .zero .negative := rfl
  constructor
  · rintro (rfl | rfl)
    · exact ⟨_, hpositive⟩
    · exact ⟨_, hnegative⟩
  · rintro ⟨s, hs⟩
    cases s with
    | positive => exact .inl (unpacked_injective (hs.trans hpositive.symm))
    | negative => exact .inr (unpacked_injective (hs.trans hnegative.symm))

/-- **A number which is not NaN compares equal to those which are the same.** -/
theorem beq_iff_same {a b : Scalar} (h : isNaN b = false) : (a == b) = true ↔ a.Same b := by
  have hnumber : b.unpacked ≠ .notANumber := by
    intro hnan
    rw [isNaN_eq, hnan] at h
    cases h
  rw [beq_iff_compare]
  unfold Same
  rw [isZero_iff, isZero_iff]
  constructor
  · intro hcompare
    rcases alike_of_compare hcompare with heq | ⟨s, s', ha, hb⟩
    · exact .inl (unpacked_injective heq)
    · exact .inr ⟨⟨s, ha⟩, s', hb⟩
  · rintro (rfl | ⟨⟨s, ha⟩, s', hb⟩)
    · exact compare_self hnumber
    · rw [ha, hb]
      rfl

end Scalar

/-! ## §2. Equal elements. -/

/-- The same coordinates. -/
def Point.Same (p q : Point) : Prop := p.x.Same q.x ∧ p.y.Same q.y

/-- The same kind of shape with the same geometry. -/
def Shape.Same : Shape → Shape → Prop
  | .path d, .path d' => d = d'
  | .circle c, .circle c' => c.cx.Same c'.cx ∧ c.cy.Same c'.cy ∧ c.r.Same c'.r
  | .rect r, .rect r' =>
    r.x.Same r'.x ∧ r.y.Same r'.y ∧ r.width.Same r'.width ∧ r.height.Same r'.height
  | .ellipse e, .ellipse e' =>
    e.cx.Same e'.cx ∧ e.cy.Same e'.cy ∧ e.rx.Same e'.rx ∧ e.ry.Same e'.ry
  | .polygon p, .polygon p' => List.Forall₂ Point.Same p.points p'.points ∧ p.closed = p'.closed
  | _, _ => False

/-- The same shape and the same fill, whatever the opacities. -/
def Element.Same (a b : Element) : Prop := a.shape.Same b.shape ∧ a.paint.fill = b.paint.fill

/-- No number of the shape is NaN. -/
def Shape.Numeric (s : Shape) : Prop := ∀ x ∈ s.scalars, Scalar.isNaN x = false

theorem Point.beq_iff {p q : Point} (hx : Scalar.isNaN q.x = false) (hy : Scalar.isNaN q.y = false) :
    (p == q) = true ↔ p.Same q := by
  show (p.x == q.x && p.y == q.y) = true ↔ _
  rw [Bool.and_eq_true, Scalar.beq_iff_same hx, Scalar.beq_iff_same hy]
  rfl

theorem points_beq_iff {ps qs : List Point}
    (h : ∀ q ∈ qs, Scalar.isNaN q.x = false ∧ Scalar.isNaN q.y = false) :
    (ps == qs) = true ↔ List.Forall₂ Point.Same ps qs := by
  induction qs generalizing ps with
  | nil =>
    cases ps with
    | nil => exact ⟨fun _ => .nil, fun _ => rfl⟩
    | cons p ps => exact iff_of_false Bool.false_ne_true nofun
  | cons q qs ih =>
    cases ps with
    | nil => exact iff_of_false Bool.false_ne_true nofun
    | cons p ps =>
      rw [List.forall_mem_cons] at h
      rw [List.cons_beq_cons, Bool.and_eq_true, Point.beq_iff h.1.1 h.1.2, ih h.2,
        List.forall₂_cons]

/-- Shapes without NaN compare equal to those which are the same. -/
theorem Shape.beq_iff {s t : Shape} (h : t.Numeric) : (s == t) = true ↔ s.Same t := by
  unfold Numeric at h
  cases t with
  | path d =>
    cases s with
    | path d' =>
      show (d' == d) = true ↔ d' = d
      exact beq_iff_eq
    | circle | rect | ellipse | polygon => exact iff_of_false Bool.false_ne_true id
  | circle c =>
    cases s with
    | circle c' =>
      simp only [scalars, List.forall_mem_cons] at h
      obtain ⟨hx, hy, hr, -⟩ := h
      show (c'.cx == c.cx && (c'.cy == c.cy && c'.r == c.r)) = true ↔ _
      rw [Bool.and_eq_true, Bool.and_eq_true, Scalar.beq_iff_same hx, Scalar.beq_iff_same hy,
        Scalar.beq_iff_same hr]
      rfl
    | path | rect | ellipse | polygon => exact iff_of_false Bool.false_ne_true id
  | rect r =>
    cases s with
    | rect r' =>
      simp only [scalars, List.forall_mem_cons] at h
      obtain ⟨hx, hy, hwidth, hheight, -⟩ := h
      show (r'.x == r.x && (r'.y == r.y && (r'.width == r.width && r'.height == r.height))) = true ↔ _
      rw [Bool.and_eq_true, Bool.and_eq_true, Bool.and_eq_true, Scalar.beq_iff_same hx,
        Scalar.beq_iff_same hy, Scalar.beq_iff_same hwidth, Scalar.beq_iff_same hheight]
      rfl
    | path | circle | ellipse | polygon => exact iff_of_false Bool.false_ne_true id
  | ellipse e =>
    cases s with
    | ellipse e' =>
      simp only [scalars, List.forall_mem_cons] at h
      obtain ⟨hx, hy, hrx, hry, -⟩ := h
      show (e'.cx == e.cx && (e'.cy == e.cy && (e'.rx == e.rx && e'.ry == e.ry))) = true ↔ _
      rw [Bool.and_eq_true, Bool.and_eq_true, Bool.and_eq_true, Scalar.beq_iff_same hx,
        Scalar.beq_iff_same hy, Scalar.beq_iff_same hrx, Scalar.beq_iff_same hry]
      rfl
    | path | circle | rect | polygon => exact iff_of_false Bool.false_ne_true id
  | polygon p =>
    cases s with
    | polygon p' =>
      have hpoints : ∀ q ∈ p.points, Scalar.isNaN q.x = false ∧ Scalar.isNaN q.y = false := by
        intro q hq
        constructor
        · exact h q.x (List.mem_flatMap.2 ⟨q, hq, List.mem_cons_self⟩)
        · exact h q.y (List.mem_flatMap.2 ⟨q, hq, List.mem_cons_of_mem _ List.mem_cons_self⟩)
      show (p'.points == p.points && p'.closed == p.closed) = true ↔ _
      rw [Bool.and_eq_true, points_beq_iff hpoints, beq_iff_eq]
      rfl
    | path | circle | rect | ellipse => exact iff_of_false Bool.false_ne_true id

/-- **An element without NaN compares equal to those which are the same.** -/
theorem Element.beq_iff {a b : Element} (h : b.shape.Numeric) : (a == b) = true ↔ a.Same b := by
  show (a.shape == b.shape && a.paint.fill == b.paint.fill) = true ↔ _
  rw [Bool.and_eq_true, Shape.beq_iff h, beq_iff_eq]
  rfl

/-! ## §3. Rules which cover an element. -/

namespace ExclusionRule

/-- The rule speaks of the element: it has no fill, or it is the same as the one of
    the rule. -/
def Covers (e : Element) : ExclusionRule → Prop
  | .fillNone => e.paint.fill = "none"
  | .exact a => a.Same e

/-- The same rule but for the opacities of its element. -/
def Alike : ExclusionRule → ExclusionRule → Prop
  | .fillNone, .fillNone => True
  | .exact a, .exact b => a.shape = b.shape ∧ a.paint.fill = b.paint.fill
  | _, _ => False

theorem matches?_iff {e : Element} (h : e.shape.Numeric) (rule : ExclusionRule) :
    rule.matches? e = true ↔ rule.Covers e := by
  cases rule with
  | fillNone => exact beq_iff_eq
  | exact a => exact Element.beq_iff h

/-- Elements which differ in opacities match the same rules. -/
theorem matches?_congr {e e' : Element} (hshape : e'.shape = e.shape)
    (hfill : e'.paint.fill = e.paint.fill) (rule : ExclusionRule) :
    rule.matches? e' = rule.matches? e := by
  cases rule with
  | fillNone => exact congrArg (· == "none") hfill
  | exact a =>
    show (a.shape == e'.shape && a.paint.fill == e'.paint.fill) = _
    rw [hshape, hfill]
    rfl

/-- Rules whose elements differ in opacities match the same elements. -/
theorem Alike.matches? {r s : ExclusionRule} (h : r.Alike s) (e : Element) :
    s.matches? e = r.matches? e := by
  cases r with
  | fillNone =>
    cases s with
    | fillNone => rfl
    | exact b => exact absurd h id
  | exact a =>
    cases s with
    | fillNone => exact absurd h id
    | exact b =>
      obtain ⟨hshape, hfill⟩ := h
      show (b.shape == e.shape && b.paint.fill == e.paint.fill) = _
      rw [← hshape, ← hfill]
      rfl

end ExclusionRule

/-! ## §4. Changes of a rule set. -/

/-- A change of a rule set. -/
inductive RuleChange where
  | push (rule : ExclusionRule)
  | extend (rules : List ExclusionRule)
  | extendExact (es : List Element)
  | replace (es : List Element)
  | collect (rules : List ExclusionRule)

namespace RuleChange

/-- The rules which a change brings. -/
def brought : RuleChange → List ExclusionRule
  | .push rule => [rule]
  | .extend rules | .collect rules => rules
  | .extendExact es | .replace es => es.map .exact

/-- Whether the rules which are there stay. -/
def keeps : RuleChange → Bool
  | .push _ | .extend _ | .extendExact _ => true
  | .replace _ | .collect _ => false

end RuleChange

namespace Exclusions

/-- The rule set after a change. -/
def change (x : Exclusions) : RuleChange → Exclusions
  | .push rule => x.push rule
  | .extend rules => x.extend rules
  | .extendExact es => x.extendExact es
  | .replace es => x.replace es
  | .collect rules => ⟨rules⟩

/-- The rule set after a run of changes. -/
def after (x : Exclusions) (changes : List RuleChange) : Exclusions := changes.foldl change x

/-- **What one change does**: it appends what it brings to what it keeps. -/
theorem rules_change (x : Exclusions) (c : RuleChange) :
    (x.change c).rules = (if c.keeps then x.rules else []) ++ c.brought := by
  cases c <;> rfl

/-- **What a run of changes does**: a rule is there if it was brought, or there at the
    start, and every later change keeps the rules. -/
theorem mem_after {x : Exclusions} {changes : List RuleChange} {rule : ExclusionRule} :
    rule ∈ (x.after changes).rules ↔
      (rule ∈ x.rules ∧ ∀ d ∈ changes, d.keeps = true) ∨
        ∃ earlier c later, changes = earlier ++ c :: later ∧ rule ∈ c.brought ∧
          ∀ d ∈ later, d.keeps = true := by
  induction changes using List.reverseRecOn with
  | nil =>
    refine ⟨fun h => .inl ⟨h, nofun⟩, ?_⟩
    rintro (⟨h, -⟩ | ⟨earlier, c, later, hnil, -⟩)
    · exact h
    · exact absurd hnil.symm (List.append_ne_nil_of_right_ne_nil earlier (List.cons_ne_nil c later))
  | append_singleton changes c ih =>
    have hafter : x.after (changes ++ [c]) = (x.after changes).change c := List.foldl_concat ..
    have hchange : rule ∈ ((x.after changes).change c).rules ↔
        rule ∈ c.brought ∨ c.keeps = true ∧ rule ∈ (x.after changes).rules := by
      rw [rules_change, List.mem_append, or_comm]
      cases hkeeps : c.keeps <;> simp
    rw [hafter, hchange, ih, List.exists_split_concat, List.forall_mem_append,
      List.forall_mem_singleton]
    tauto

/-! ## §5. The decision. -/

theorem excludes_iff {x : Exclusions} {e : Element} :
    x.excludes e = true ↔ ∃ rule ∈ x.rules, rule.matches? e = true := List.find?_isSome

section

variable {x : Exclusions} {e : Element} (h : e.shape.Numeric)

include h

theorem excludes_iff_covers : x.excludes e = true ↔ ∃ rule ∈ x.rules, rule.Covers e := by
  rw [excludes_iff]
  simp only [ExclusionRule.matches?_iff h]

/-- An element is excluded for want of fill or as the same as one of a rule. -/
theorem excludes_iff_same : x.excludes e = true ↔
    (.fillNone ∈ x.rules ∧ e.paint.fill = "none") ∨ ∃ a, .exact a ∈ x.rules ∧ a.Same e := by
  rw [excludes_iff_covers h]
  constructor
  · rintro ⟨rule, hrule, hcovers⟩
    cases rule with
    | fillNone => exact .inl ⟨hrule, hcovers⟩
    | exact a => exact .inr ⟨a, hrule, hcovers⟩
  · rintro (⟨hrule, hfill⟩ | ⟨a, hrule, hsame⟩)
    · exact ⟨.fillNone, hrule, hfill⟩
    · exact ⟨.exact a, hrule, hsame⟩

/-- The rule which is reported is the first one which covers the element. -/
theorem matching?_iff {rule : ExclusionRule} : x.matching? e = some rule ↔
    ∃ earlier later, x.rules = earlier ++ rule :: later ∧ rule.Covers e ∧
      ∀ other ∈ earlier, ¬other.Covers e := by
  unfold matching?
  rw [List.find?_eq_some_iff_append]
  simp only [← ExclusionRule.matches?_iff h]
  constructor
  · rintro ⟨hmatches, earlier, later, hrules, hothers⟩
    exact ⟨earlier, later, hrules, hmatches, fun other hother => by simpa using hothers other hother⟩
  · rintro ⟨earlier, later, hrules, hmatches, hothers⟩
    exact ⟨hmatches, earlier, later, hrules, fun other hother => by simpa using hothers other hother⟩

theorem excludes_replace_iff {es : List Element} :
    (x.replace es).excludes e = true ↔ ∃ a ∈ es, a.Same e := by
  rw [excludes_iff_covers h]
  constructor
  · rintro ⟨rule, hrule, hcovers⟩
    obtain ⟨a, ha, rfl⟩ := List.mem_map.1 hrule
    exact ⟨a, ha, hcovers⟩
  · rintro ⟨a, ha, hsame⟩
    exact ⟨.exact a, List.mem_map_of_mem ha, hsame⟩

end

/-- Rule sets decide alike on an element if each covers it as far as the other does. -/
theorem excludes_congr {x y : Exclusions} {e e' : Element}
    (h : (∃ rule ∈ x.rules, rule.matches? e = true) ↔ ∃ rule ∈ y.rules, rule.matches? e' = true) :
    x.excludes e = y.excludes e' := by
  rw [Bool.eq_iff_iff, excludes_iff, excludes_iff]
  exact h

/-- Rules which differ in opacities match alike, one by one. -/
theorem exists_matches_alike {rs ss : List ExclusionRule}
    (h : List.Forall₂ ExclusionRule.Alike rs ss) (e : Element) :
    (∃ rule ∈ rs, rule.matches? e = true) ↔ ∃ rule ∈ ss, rule.matches? e = true := by
  induction h with
  | nil => exact Iff.rfl
  | cons halike _ ih =>
    rw [List.exists_mem_cons_iff, List.exists_mem_cons_iff, halike.matches? e, ih]

/-- **Exclusion of an element.**  Take any rule set, any run of changes and any
    element whose geometry is without NaN.  The rules which are there are those of
    the start and of the changes, as far as no later change drops them.  The element
    is excluded if and only if some rule covers it, and the first rule which does is
    the one reported.  Order and multiplicity of the rules do not count, nor do
    opacities, of the element and of the rules; adding rules keeps it excluded; and
    after a replacement exactly what is the same as one of the new elements is
    excluded. -/
theorem excludes_decision (start : Exclusions) (changes : List RuleChange) {e : Element}
    (h : e.shape.Numeric) :
    let x := start.after changes
    (∀ rule, rule ∈ x.rules ↔
      (rule ∈ start.rules ∧ ∀ d ∈ changes, d.keeps = true) ∨
        ∃ earlier c later, changes = earlier ++ c :: later ∧ rule ∈ c.brought ∧
          ∀ d ∈ later, d.keeps = true) ∧
    (x.excludes e = true ↔
      (.fillNone ∈ x.rules ∧ e.paint.fill = "none") ∨ ∃ a, .exact a ∈ x.rules ∧ a.Same e) ∧
    (∀ rule, x.matching? e = some rule ↔
      ∃ earlier later, x.rules = earlier ++ rule :: later ∧ rule.Covers e ∧
        ∀ other ∈ earlier, ¬other.Covers e) ∧
    (∀ y : Exclusions, (∀ rule, rule ∈ y.rules ↔ rule ∈ x.rules) → y.excludes e = x.excludes e) ∧
    (∀ e' : Element, e'.shape = e.shape → e'.paint.fill = e.paint.fill →
      x.excludes e' = x.excludes e) ∧
    (∀ y : Exclusions, List.Forall₂ ExclusionRule.Alike x.rules y.rules →
      y.excludes e = x.excludes e) ∧
    (∀ added, (∀ c ∈ added, c.keeps = true) → x.excludes e = true →
      (x.after added).excludes e = true) ∧
    ∀ es, (x.replace es).excludes e = true ↔ ∃ a ∈ es, a.Same e := by
  intro x
  refine ⟨fun rule => mem_after, excludes_iff_same h, fun rule => matching?_iff h, ?order,
    ?element, ?rules, ?added, fun es => excludes_replace_iff h⟩
  case order =>
    intro y hrules
    refine excludes_congr (exists_congr fun rule => ?_)
    rw [hrules rule]
  case element =>
    intro e' hshape hfill
    refine excludes_congr (exists_congr fun rule => ?_)
    rw [ExclusionRule.matches?_congr hshape hfill]
  case rules => exact fun y hrules => (excludes_congr (exists_matches_alike hrules e)).symm
  case added =>
    intro added hadded hexcluded
    obtain ⟨rule, hrule, hmatches⟩ := excludes_iff.1 hexcluded
    exact excludes_iff.2 ⟨rule, mem_after.2 (.inl ⟨hrule, hadded⟩), hmatches⟩

/-- A square whose corner is at the negative zero, half transparent. -/
def framed : Element := ⟨.rect ⟨-0.0, 0.0, 24.0, 24.0⟩, ⟨"#000", some 0.5, .none⟩⟩

/-- The same square, with the positive zero and opaque. -/
def frame : Element := ⟨.rect ⟨0.0, 0.0, 24.0, 24.0⟩, ⟨"#000", .none, .none⟩⟩

theorem excludes_decision_framed : framed.shape.Numeric ∧
    (default.after [.push .fillNone, .replace [frame], .extend [.fillNone]]).excludes framed = true ∧
    (default.after [.push .fillNone, .replace [frame], .extend [.fillNone]]).matching? framed =
      some (.exact frame) := by
  have hnumbers : framed.shape.scalars.all (fun x => ! Scalar.isNaN x) = true := by decide
  have hnumeric : framed.shape.Numeric := fun x hx => by
    simpa using List.all_eq_true.1 hnumbers x hx
  have hsame : frame.Same framed :=
    ⟨⟨.inr ⟨.inl rfl, .inr rfl⟩, .inl rfl, .inl rfl, .inl rfl⟩, rfl⟩
  obtain ⟨hrules, hexcludes, hmatching, -⟩ :=
    excludes_decision default [.push .fillNone, .replace [frame], .extend [.fillNone]] hnumeric
  refine ⟨hnumeric, hexcludes.2 (.inr ⟨frame, ?_, hsame⟩), ?_⟩
  · exact (hrules _).2 (.inr ⟨[.push .fillNone], .replace [frame], [.extend [.fillNone]], rfl,
      List.mem_cons_self, List.forall_mem_singleton.2 rfl⟩)
  · exact (hmatching _).2 ⟨[], [.fillNone], rfl, hsame, nofun⟩

end Exclusions

end VectorIcon

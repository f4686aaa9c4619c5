/-
  VectorIcon.Exclusion
  ────────────────────────────────
  **WHICH ELEMENTS ARE LEFT OUT.**

  A rule says of an element whether it is dropped.  Rules stand in a list; an
  element is excluded if some rule matches it, and the first such rule is the
  one which is reported.
-/
import VectorIcon.Element.Basic

namespace VectorIcon

/-- A rule of exclusion. -/
inductive ExclusionRule where
  /-- Elements whose fill is `none`. -/
  | fillNone
  /-- Elements equal to the given one. -/
  | exact (element : Element)
deriving BEq, Inhabited

namespace ExclusionRule

/-- Whether the rule drops an element. -/
def matches? (rule : ExclusionRule) (e : Element) : Bool :=
  match rule with
  | .fillNone => e.paint.isNone
  | .exact excluded => excluded == e

end ExclusionRule

/-- A list of rules. -/
structure Exclusions where
  rules : List ExclusionRule
deriving BEq, Inhabited

namespace Exclusions

/-- No rules. -/
def none : Exclusions := ⟨[]⟩

/-- Elements without fill and the frame of 24 by 24 units which many icon sets
    have. -/
def default : Exclusions :=
  ⟨[.fillNone, .exact (.ofPath ⟨"M0 0h24v24H0V0z", .default⟩)]⟩

/-- Add a rule. -/
def push (x : Exclusions) (rule : ExclusionRule) : Exclusions := ⟨x.rules ++ [rule]⟩

/-- Add rules. -/
def extend (x : Exclusions) (rules : List ExclusionRule) : Exclusions := ⟨x.rules ++ rules⟩

/-- Exclude elements besides what the rules exclude. -/
def extendExact (x : Exclusions) (es : List Element) : Exclusions := x.extend (es.map .exact)

/-- Exclude exactly the given elements, whatever was excluded before. -/
def replace (_ : Exclusions) (es : List Element) : Exclusions := ⟨es.map .exact⟩

/-- The first rule which drops an element. -/
def matching? (x : Exclusions) (e : Element) : Option ExclusionRule :=
  x.rules.find? (·.matches? e)

/-- Whether an element is dropped. -/
def excludes (x : Exclusions) (e : Element) : Bool := (x.matching? e).isSome

end Exclusions

end VectorIcon

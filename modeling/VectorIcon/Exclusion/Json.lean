/-
  VectorIcon.Exclusion.Json
  ────────────────────────────────
  **EXCLUSION RULES AS JSON.**

  A rule is an object with the member `rule`, which names it, and for an exact
  rule the member `element`:

      {"rule":"fill_none"}      {"rule":"exact","element":{…}}

  The members may come in either order; the element is read at once if the name
  is known by then.  A rule may also be an array of the two.
-/
import VectorIcon.Exclusion
import VectorIcon.Element.Json

namespace VectorIcon

open Json (Fault Key Source Value)

/-! ## §1. Writing. -/

/-- The text of a rule. -/
def ExclusionRule.jsonText : ExclusionRule → List Char
  | .fillNone => Json.objectText [("rule", Json.stringText "fill_none".toList)]
  | .exact e => Json.objectText [("rule", Json.stringText "exact".toList), ("element", e.jsonText)]

/-- The text of a list of rules. -/
def Exclusions.jsonText (x : Exclusions) : List Char :=
  Json.arrayText (x.rules.map ExclusionRule.jsonText)

/-! ## §2. Reading. -/

/-- The rules by name. -/
inductive RuleKind where
  | fillNone
  | exact
deriving DecidableEq, Repr, Inhabited

namespace RuleKind

/-- The rule of a name. -/
def ofSource (v : Source) : Except Fault RuleKind := do
  let name ← v.text
  if name = "fill_none".toList then return .fillNone
  else if name = "exact".toList then return .exact
  else throw .mismatch

end RuleKind

namespace ExclusionRule

/-- The rule of a kind whose element is read from the text; the other rule
    allows `null` in its place. -/
def withSource (depth : Nat) (kind : RuleKind) (v : Source) : Except Fault ExclusionRule :=
  match kind, v with
  | .fillNone, .null => return .fillNone
  | .fillNone, v => throw v.mismatchFault
  | .exact, v => return .exact (← Element.ofSource depth v)

/-- The rule of a kind whose element was read before. -/
def withValue (kind : RuleKind) (v : Value) : Except Fault ExclusionRule :=
  match kind, v with
  | .fillNone, .null => return .fillNone
  | .fillNone, _ => throw .mismatch
  | .exact, v => return .exact (← Element.ofValue v)

/-- The rule of a kind without an element. -/
def withoutElement : RuleKind → Except Fault ExclusionRule
  | .fillNone => return .fillNone
  | .exact => throw .mismatch

/-- What is known of a rule between two members. -/
inductive Draft where
  | empty
  | named (kind : RuleKind)
  /-- The element came before the name. -/
  | unnamed (element : Value)
  | complete (rule : ExclusionRule)

/-- Take in a member. -/
def member (depth : Nat) (d : Draft) (name : List Char) (v : Source) : Except Fault Draft :=
  if name = "rule".toList then
    match d with
    | .empty => return .named (← RuleKind.ofSource v)
    | .unnamed element => do return .complete (← withValue (← RuleKind.ofSource v) element)
    | .named _ | .complete _ => throw .mismatch
  else if name = "element".toList then
    match d with
    | .empty => return .unnamed (← v.value? depth)
    | .named kind => return .complete (← withSource depth kind v)
    | .unnamed _ | .complete _ => throw .mismatch
  else do
    v.skip
    return d

/-- The rule once all members are read. -/
def ofDraft : Draft → Except Fault ExclusionRule
  | .complete rule => return rule
  | .named kind => withoutElement kind
  | .empty | .unnamed _ => throw .mismatch

/-- The rule of a source. -/
def ofSource (depth : Nat) : Source → Except Fault ExclusionRule
  | .object members fault => do
    ofDraft (← Source.foldMembers (member (depth - 1)) .empty members fault)
  | .array items fault => do
    let (kind, items) ← Source.nextField RuleKind.ofSource items fault
    let kind ← Source.required kind
    let (rule, items) ← Source.nextField (withSource (depth - 1) kind) items fault
    let rule ← Source.required rule
    Source.endFields items fault
    return rule
  | v => throw v.mismatchFault

/-- The rule of a text. -/
def ofJson (text : List Char) : Except Fault ExclusionRule :=
  Json.decode (ofSource Json.depthLimit) text

end ExclusionRule

/-- The rules of a source. -/
def Exclusions.ofSource (depth : Nat) (v : Source) : Except Fault Exclusions :=
  return ⟨← Source.list (ExclusionRule.ofSource (depth - 1)) v⟩

end VectorIcon

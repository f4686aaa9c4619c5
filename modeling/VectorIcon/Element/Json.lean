/-
  VectorIcon.Element.Json
  ────────────────────────────────
  **ELEMENTS AS JSON.**

  An element is an object whose member `type` names the shape; geometry and
  paint are further members, absent ones have their defaults.  The member `type`
  is understood as soon as it is read, the others once the object is complete.

      {"type":"circle","cx":12.0,"cy":12.0,"r":10.0,"fill":"#000"}

  Opacities are written only if they are set.
-/
import VectorIcon.Element.Basic
import VectorIcon.Json.Decode
import VectorIcon.Json.Text

namespace VectorIcon

open Json (Fault Key Source Value)

/-! ## §1. Writing. -/

/-- An opacity, if it is set. -/
def opacityMember (name : String) : Option Scalar → List (String × List Char)
  | some x => [(name, Json.numberText x)]
  | none => []

/-- The members of a paint. -/
def Paint.jsonMembers (p : Paint) : List (String × List Char) :=
  ("fill", Json.stringText p.fill.toList) ::
    (opacityMember "fill_opacity" p.fillOpacity ++ opacityMember "opacity" p.opacity)

/-- The text of a point. -/
def Point.jsonText (p : Point) : List Char :=
  Json.arrayText [Json.numberText p.x, Json.numberText p.y]

/-- The members of a shape, its type first. -/
def Shape.jsonMembers : Shape → List (String × List Char)
  | .path d => [("type", Json.stringText "path".toList), ("d", Json.stringText d.toList)]
  | .circle c =>
    [("type", Json.stringText "circle".toList), ("cx", Json.numberText c.cx),
      ("cy", Json.numberText c.cy), ("r", Json.numberText c.r)]
  | .rect r =>
    [("type", Json.stringText "rect".toList), ("x", Json.numberText r.x),
      ("y", Json.numberText r.y), ("width", Json.numberText r.width),
      ("height", Json.numberText r.height)]
  | .ellipse e =>
    [("type", Json.stringText "ellipse".toList), ("cx", Json.numberText e.cx),
      ("cy", Json.numberText e.cy), ("rx", Json.numberText e.rx), ("ry", Json.numberText e.ry)]
  | .polygon p =>
    [("type", Json.stringText "polygon".toList),
      ("points", Json.arrayText (p.points.map Point.jsonText)),
      ("closed", Json.boolText p.closed)]

/-- The text of an element. -/
def Element.jsonText (e : Element) : List Char :=
  Json.objectText (e.shape.jsonMembers ++ e.paint.jsonMembers)

/-- The text of a path, which has no type. -/
def PathElement.jsonText (p : PathElement) : List Char :=
  Json.objectText (("d", Json.stringText p.data.toList) :: p.paint.jsonMembers)

/-! ## §2. Reading fields. -/

/-- A point is an array of two numbers. -/
def Point.ofJson : Value → Except Fault Point
  | .array [x, y] => return ⟨← x.scalar, ← y.scalar⟩
  | _ => throw .mismatch

/-- The paint among members. -/
def Paint.ofMembers (ms : List (List Char × Value)) : Except Fault Paint := do
  let fill ← Value.field ms "fill" Value.text []
  let fillOpacity ← Value.field ms "fill_opacity" Value.optionalScalar none
  let opacity ← Value.field ms "opacity" Value.optionalScalar none
  return ⟨String.ofList fill, fillOpacity, opacity⟩

/-- The shapes by type. -/
inductive ShapeKind where
  | path
  | circle
  | rect
  | ellipse
  | polygon
deriving DecidableEq, Repr, Inhabited

namespace ShapeKind

/-- All shapes in their order. -/
def all : List ShapeKind := [.path, .circle, .rect, .ellipse, .polygon]

/-- The name of a type. -/
def name : ShapeKind → String
  | .path => "path"
  | .circle => "circle"
  | .rect => "rect"
  | .ellipse => "ellipse"
  | .polygon => "polygon"

/-- The shape of a name. -/
def ofName (name : List Char) : Except Fault ShapeKind :=
  match all.find? (·.name.toList = name) with
  | some k => return k
  | none => throw .mismatch

/-- A type which is read from the text is a name. -/
def ofSource (v : Source) : Except Fault ShapeKind := do ofName (← v.text)

/-- A type within a value is a name or the place in the order of shapes. -/
def ofValue : Value → Except Fault ShapeKind
  | .string s => ofName s
  | .number (.integer (.ofNat i)) =>
    match all[i]? with
    | some k => return k
    | none => throw .mismatch
  | _ => throw .mismatch

end ShapeKind

/-- The shape of a kind among members. -/
def Shape.ofMembers (kind : ShapeKind) (ms : List (List Char × Value)) : Except Fault Shape :=
  let scalar (name : String) : Except Fault Scalar := Value.field ms name Value.scalar 0.0
  match kind with
  | .path => return .path (String.ofList (← Value.field ms "d" Value.text []))
  | .circle => return .circle ⟨← scalar "cx", ← scalar "cy", ← scalar "r"⟩
  | .rect => return .rect ⟨← scalar "x", ← scalar "y", ← scalar "width", ← scalar "height"⟩
  | .ellipse => return .ellipse ⟨← scalar "cx", ← scalar "cy", ← scalar "rx", ← scalar "ry"⟩
  | .polygon =>
    return .polygon ⟨← Value.field ms "points" (Value.list Point.ofJson) [],
      ← Value.field ms "closed" Value.truth true⟩

/-! ## §3. Reading elements. -/

namespace Element

/-- The element of a kind among members. -/
def ofMembers (kind : ShapeKind) (ms : List (List Char × Value)) : Except Fault Element :=
  return ⟨← Shape.ofMembers kind ms, ← Paint.ofMembers ms⟩

/-- The element within a value. -/
def ofValue : Value → Except Fault Element
  | .object members =>
    match members.filter (·.1 = "type".toList) with
    | [(_, kind)] => do
      ofMembers (← ShapeKind.ofValue kind) (members.filter (·.1 ≠ "type".toList))
    | _ => throw .mismatch
  | _ => throw .mismatch

/-- Read members in order: the type at once, the others as values. -/
def collect (depth : Nat) (kind : Option ShapeKind) :
    List (Key × Source) → Except Fault (Option ShapeKind × List (List Char × Value))
  | [] => return (kind, [])
  | (key, v) :: ms => do
    let name ← key
    if name = "type".toList then
      if kind.isSome then throw .mismatch
      collect depth (some (← ShapeKind.ofSource v)) ms
    else
      let w ← v.value? depth
      let (kind, rest) ← collect depth kind ms
      return (kind, (name, w) :: rest)

/-- The element of a source.  An array is read to its end although no element
    is written as one. -/
def ofSource (depth : Nat) : Source → Except Fault Element
  | .object members fault => do
    let (kind, ms) ← collect (depth - 1) none members
    Source.closed (fault.map (·.whenRead))
    ofMembers (← Source.required kind) ms
  | .array items fault => do
    let (_, items) ← Source.nextField ShapeKind.ofSource items fault
    let _ ← Source.itemValues (depth - 1) items
    Source.closed fault
    throw .mismatch
  | v => throw v.mismatchFault

/-- The element of a text. -/
def ofJson (text : List Char) : Except Fault Element := Json.decode (ofSource Json.depthLimit) text

end Element

/-! ## §4. Reading paths. -/

namespace PathElement

/-- Read members in order: the path data at once, the others as values. -/
def collect (depth : Nat) (data : Option (List Char)) :
    List (Key × Source) → Except Fault (Option (List Char) × List (List Char × Value))
  | [] => return (data, [])
  | (key, v) :: ms => do
    let name ← key
    if name = ['d'] then
      collect depth (← Source.setOnce data Source.text v) ms
    else
      let w ← v.value? depth
      let (data, rest) ← collect depth data ms
      return (data, (name, w) :: rest)

/-- The path of a source, which has to be an object.  The paint is looked at
    once all members are read. -/
def ofSource (depth : Nat) : Source → Except Fault PathElement
  | .object members fault => do
    let (data, ms) ← collect (depth - 1) none members
    Source.closed (fault.map (·.whenRead))
    return ⟨String.ofList (data.getD []), ← Paint.ofMembers ms⟩
  | v => throw v.mismatchFault

end PathElement

end VectorIcon

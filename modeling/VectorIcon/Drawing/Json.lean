/-
  VectorIcon.Drawing.Json
  ────────────────────────────────
  **DRAWINGS AS JSON.**

      {"canvas":{"width":…,"height":…,"view_box":{"min_x":…,"min_y":…,
        "width":…,"height":…}},"paths":[{"d":…,"fill":…},…]}

  All fields of canvas and view box have to be there.
-/
import VectorIcon.Drawing.Basic
import VectorIcon.Element.Json

namespace VectorIcon

open Json (Fault Source)

/-! ## §1. Writing. -/

/-- The text of a view box. -/
def ViewBox.jsonText (v : ViewBox) : List Char :=
  Json.objectText [("min_x", Json.numberText v.minX), ("min_y", Json.numberText v.minY),
    ("width", Json.numberText v.width), ("height", Json.numberText v.height)]

/-- The text of a canvas. -/
def Canvas.jsonText (c : Canvas) : List Char :=
  Json.objectText [("width", Json.numberText c.width), ("height", Json.numberText c.height),
    ("view_box", c.viewBox.jsonText)]

/-- The text of a drawing. -/
def Drawing.jsonText (d : Drawing) : List Char :=
  Json.objectText [("canvas", d.canvas.jsonText),
    ("paths", Json.arrayText (d.paths.map PathElement.jsonText))]

/-! ## §2. Reading. -/

namespace ViewBox

/-- The fields which are read so far. -/
structure Draft where
  minX : Option Scalar
  minY : Option Scalar
  width : Option Scalar
  height : Option Scalar

/-- Take in a member. -/
def member (d : Draft) (name : List Char) (v : Source) : Except Fault Draft :=
  if name = "min_x".toList then
    return { d with minX := ← Source.setOnce d.minX Source.scalar v }
  else if name = "min_y".toList then
    return { d with minY := ← Source.setOnce d.minY Source.scalar v }
  else if name = "width".toList then
    return { d with width := ← Source.setOnce d.width Source.scalar v }
  else if name = "height".toList then
    return { d with height := ← Source.setOnce d.height Source.scalar v }
  else do
    v.skip
    return d

/-- The view box of a source. -/
def ofSource : Source → Except Fault ViewBox
  | .object members fault => do
    let d ← Source.foldMembers member ⟨none, none, none, none⟩ members fault
    return ⟨← Source.required d.minX, ← Source.required d.minY, ← Source.required d.width,
      ← Source.required d.height⟩
  | .array items fault => do
    let (minX, items) ← Source.nextField Source.scalar items fault
    let minX ← Source.required minX
    let (minY, items) ← Source.nextField Source.scalar items fault
    let minY ← Source.required minY
    let (width, items) ← Source.nextField Source.scalar items fault
    let width ← Source.required width
    let (height, items) ← Source.nextField Source.scalar items fault
    let height ← Source.required height
    Source.endFields items fault
    return ⟨minX, minY, width, height⟩
  | v => throw v.mismatchFault

end ViewBox

namespace Canvas

/-- The fields which are read so far. -/
structure Draft where
  width : Option Scalar
  height : Option Scalar
  viewBox : Option ViewBox

/-- Take in a member. -/
def member (d : Draft) (name : List Char) (v : Source) : Except Fault Draft :=
  if name = "width".toList then
    return { d with width := ← Source.setOnce d.width Source.scalar v }
  else if name = "height".toList then
    return { d with height := ← Source.setOnce d.height Source.scalar v }
  else if name = "view_box".toList then
    return { d with viewBox := ← Source.setOnce d.viewBox ViewBox.ofSource v }
  else do
    v.skip
    return d

/-- The canvas of a source. -/
def ofSource : Source → Except Fault Canvas
  | .object members fault => do
    let d ← Source.foldMembers member ⟨none, none, none⟩ members fault
    return ⟨← Source.required d.width, ← Source.required d.height, ← Source.required d.viewBox⟩
  | .array items fault => do
    let (width, items) ← Source.nextField Source.scalar items fault
    let width ← Source.required width
    let (height, items) ← Source.nextField Source.scalar items fault
    let height ← Source.required height
    let (viewBox, items) ← Source.nextField ViewBox.ofSource items fault
    let viewBox ← Source.required viewBox
    Source.endFields items fault
    return ⟨width, height, viewBox⟩
  | v => throw v.mismatchFault

end Canvas

namespace Drawing

/-- The fields which are read so far. -/
structure Draft where
  canvas : Option Canvas
  paths : Option (List PathElement)

/-- A list of paths. -/
def pathsOfSource (depth : Nat) (v : Source) : Except Fault (List PathElement) :=
  Source.list (PathElement.ofSource (depth - 1)) v

/-- Take in a member. -/
def member (depth : Nat) (d : Draft) (name : List Char) (v : Source) : Except Fault Draft :=
  if name = "canvas".toList then
    return { d with canvas := ← Source.setOnce d.canvas Canvas.ofSource v }
  else if name = "paths".toList then
    return { d with paths := ← Source.setOnce d.paths (pathsOfSource depth) v }
  else do
    v.skip
    return d

/-- The drawing of a source. -/
def ofSource (depth : Nat) : Source → Except Fault Drawing
  | .object members fault => do
    let d ← Source.foldMembers (member (depth - 1)) ⟨none, none⟩ members fault
    return ⟨← Source.required d.canvas, ← Source.required d.paths⟩
  | .array items fault => do
    let (canvas, items) ← Source.nextField Canvas.ofSource items fault
    let canvas ← Source.required canvas
    let (paths, items) ← Source.nextField (pathsOfSource (depth - 1)) items fault
    let paths ← Source.required paths
    Source.endFields items fault
    return ⟨canvas, paths⟩
  | v => throw v.mismatchFault

/-- The drawing of a text. -/
def ofJson (text : List Char) : Except Fault Drawing := Json.decode (ofSource Json.depthLimit) text

end Drawing

end VectorIcon

/-
  VectorIcon.Drawing.Walk
  ────────────────────────────────
  **COLLECTING PATHS IN ONE WALK.**

  The paths of a document are collected while its tree is walked once, depth
  first: a group passes on what was collected before it, every other element
  appends its path or appends nothing, and the first element which can not be
  read ends the walk.
-/
import VectorIcon.Drawing.Markup

namespace VectorIcon

namespace Drawing

mutual

/-- Collect the path of a node after those which are collected already. -/
def collectNode (excluded : Element → Bool) (paths : List PathElement) :
    Xml.Node → Except Error (List PathElement)
  | .element name attributes children =>
    if name = Leaf.groupName then collect excluded paths children
    else if Leaf.isDescription name then .ok paths
    else do
      let e ← Leaf.element ⟨name, attributes⟩
      return if excluded e then paths else paths ++ [e.toPath]
  | .text _ | .comment _ | .instruction _ _ => .ok paths

/-- Collect the paths of some nodes after those which are collected already. -/
def collect (excluded : Element → Bool) (paths : List PathElement) :
    List Xml.Node → Except Error (List PathElement)
  | [] => .ok paths
  | n :: ns => do
    let paths ← collectNode excluded paths n
    collect excluded paths ns

end

/-- The drawing of an element tree without the elements which are excluded. -/
def walk (excluded : Element → Bool) : Xml.Node → Except Error Drawing
  | .element name attributes children => do
    if name ≠ rootName then throw (.unsupportedElement name)
    let paths ← collect excluded [] children
    if paths.isEmpty then throw .emptyDrawing
    let canvas ← Canvas.ofAttributes attributes
    return ⟨canvas, paths⟩
  | .text _ | .comment _ | .instruction _ _ => .error (.markup .notWellFormed)

end Drawing

end VectorIcon

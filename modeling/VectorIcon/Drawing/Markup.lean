/-
  VectorIcon.Drawing.Markup
  ────────────────────────────────
  **FROM MARKUP TO DRAWINGS.**

  The drawable elements of a document are the leaves of its tree: groups only
  hold their children together, titles and other descriptions draw nothing,
  and text and comments do not count (`Leaf.ofNodes`).  Every leaf is read as an
  element, in document order; elements which a filter excludes are left out and
  all others become paths.

  A document is read in this order, and the first problem is the one reported:
  its markup, the name of its root, its elements whether excluded or not, the
  presence of a path, its canvas.
-/
import VectorIcon.Drawing.Attribute
import VectorIcon.Drawing.Basic
import VectorIcon.Element.Outline

namespace VectorIcon

/-! ## §1. Leaves. -/

/-- An element of markup which is to be drawn. -/
structure Leaf where
  name : String
  attributes : List Xml.Attribute
deriving Inhabited

namespace Leaf

/-- The element which groups others. -/
def groupName : String := "g"

/-- Whether an element is a description and draws nothing. -/
def isDescription (name : String) : Bool :=
  name == "title" || name == "desc" || name == "metadata"

mutual

/-- The leaves of a node, in document order. -/
def ofNode : Xml.Node → List Leaf
  | .element name attributes children =>
    if name = groupName then ofNodes children
    else if isDescription name then []
    else [⟨name, attributes⟩]
  | .text _ | .comment _ | .instruction _ _ => []

/-- The leaves of some nodes, in document order. -/
def ofNodes : List Xml.Node → List Leaf
  | [] => []
  | n :: ns => ofNode n ++ ofNodes ns

end

/-! ## §2. Elements. -/

/-- The geometry of a leaf. -/
def shape (l : Leaf) : Except Error Shape := do
  let scalar := Attribute.scalarOf l.attributes
  match l.name with
  | "path" => return .path (String.ofList (Attribute.textOf l.attributes "d"))
  | "rect" =>
    return .rect ⟨← scalar "x", ← scalar "y", ← scalar "width", ← scalar "height"⟩
  | "circle" => return .circle ⟨← scalar "cx", ← scalar "cy", ← scalar "r"⟩
  | "ellipse" =>
    return .ellipse ⟨← scalar "cx", ← scalar "cy", ← scalar "rx", ← scalar "ry"⟩
  | "polygon" => return .polygon ⟨← points l, true⟩
  | "polyline" => return .polygon ⟨← points l, false⟩
  | name => throw (.unsupportedElement name)
where
  /-- The vertices of a leaf. -/
  points (l : Leaf) : Except Error (List Point) :=
    Attribute.points "points" (Attribute.textOf l.attributes "points")

/-- The paint of a leaf. -/
def paint (l : Leaf) : Except Error Paint := do
  let fillOpacity ← Attribute.optional l.attributes "fill-opacity" Attribute.opacity
  let opacity ← Attribute.optional l.attributes "opacity" Attribute.opacity
  return ⟨String.ofList (Attribute.textOf l.attributes "fill"), fillOpacity, opacity⟩

/-- The element of a leaf. -/
def element (l : Leaf) : Except Error Element := do
  let shape ← l.shape
  let paint ← l.paint
  return ⟨shape, paint⟩

end Leaf

/-! ## §3. The canvas. -/

namespace Canvas

/-- The canvas of the attributes of a root.  A missing side is that of the view
    box, and a missing or zero view box is that of the sides. -/
def ofAttributes (attributes : List Xml.Attribute) : Except Error Canvas := do
  let given ← Attribute.optional attributes "viewBox" Attribute.viewBox
  let width ← Attribute.optional attributes "width" Attribute.scalar
  let height ← Attribute.optional attributes "height" Attribute.scalar
  let width := (width.or (given.map (·.width))).getD 0.0
  let height := (height.or (given.map (·.height))).getD 0.0
  let whole : ViewBox := ⟨0.0, 0.0, width, height⟩
  let viewBox := (given.filter fun v => v.width != 0.0 || v.height != 0.0).getD whole
  if 0.0 < viewBox.width && 0.0 < viewBox.height then return ⟨width, height, viewBox⟩
  else throw (.markup (.emptyViewBox viewBox))

end Canvas

/-! ## §4. Drawings. -/

namespace Drawing

/-- The name of the root of a drawing. -/
def rootName : String := "svg"

/-- The drawing of an element tree without the elements which are excluded. -/
def ofTree (excluded : Element → Bool) : Xml.Node → Except Error Drawing
  | .element name attributes children => do
    if name ≠ rootName then throw (.unsupportedElement name)
    let elements ← (Leaf.ofNodes children).mapM Leaf.element
    let paths := (elements.filter (! excluded ·)).map Element.toPath
    if paths.isEmpty then throw .emptyDrawing
    let canvas ← Canvas.ofAttributes attributes
    return ⟨canvas, paths⟩
  | .text _ | .comment _ | .instruction _ _ => .error (.markup .notWellFormed)

/-- The drawing of a document without the elements which are excluded. -/
def parse (excluded : Element → Bool) (text : List Char) : Except Error Drawing :=
  match Xml.parse text with
  | .ok root => ofTree excluded root
  | .error _ => .error (.markup .notWellFormed)

end Drawing

end VectorIcon

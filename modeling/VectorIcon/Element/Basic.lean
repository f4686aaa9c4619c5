/-
  VectorIcon.Element.Basic
  ────────────────────────────────
  **THE SHAPES OF A DRAWING.**

  A drawable element is a path or one of the basic shapes, together with its
  paint.  Two elements are equal if they are of the same kind and agree in
  geometry and fill; opacities do not take part.
-/
import VectorIcon.Geometry

namespace VectorIcon

/-! ## §1. Paint. -/

/-- How an element is filled. -/
structure Paint where
  /-- The fill as it was given, empty if it was not. -/
  fill : String
  fillOpacity : Option Scalar
  opacity : Option Scalar
deriving Inhabited

namespace Paint

/-- The paint of an element without any attributes. -/
def default : Paint := ⟨"", none, none⟩

/-- Paints are equal if their fills are. -/
instance : BEq Paint := ⟨fun p q => p.fill == q.fill⟩

/-- Whether the fill is exactly `none`. -/
def isNone (p : Paint) : Bool := p.fill == "none"

/-- Both opacities together, within `[0, 1]`. -/
def alpha (p : Paint) : Scalar :=
  (p.opacity.getD 1.0 * p.fillOpacity.getD 1.0).clampUnit

end Paint

/-! ## §2. Elements. -/

/-- A path, also the form every other shape is converted into. -/
structure PathElement where
  data : String
  paint : Paint
deriving BEq, Inhabited

/-- A circle. -/
structure Circle where
  cx : Scalar
  cy : Scalar
  r : Scalar
deriving BEq, Inhabited

/-- A rectangle. -/
structure Rect where
  x : Scalar
  y : Scalar
  width : Scalar
  height : Scalar
deriving BEq, Inhabited

/-- An ellipse. -/
structure Ellipse where
  cx : Scalar
  cy : Scalar
  rx : Scalar
  ry : Scalar
deriving BEq, Inhabited

/-- A polygon, or a polyline if it is not closed. -/
structure Polygon where
  points : List Point
  closed : Bool
deriving BEq, Inhabited

/-- What an element draws. -/
inductive Shape where
  | path (data : String)
  | circle (circle : Circle)
  | rect (rect : Rect)
  | ellipse (ellipse : Ellipse)
  | polygon (polygon : Polygon)
deriving BEq, Inhabited

/-- A shape and its paint. -/
structure Element where
  shape : Shape
  paint : Paint
deriving BEq, Inhabited

namespace Shape

/-- The tag name of the shape. -/
def name : Shape → String
  | .path _ => "path"
  | .circle _ => "circle"
  | .rect _ => "rect"
  | .ellipse _ => "ellipse"
  | .polygon p => if p.closed then "polygon" else "polyline"

end Shape

namespace Element

/-- The tag name of the element. -/
def name (e : Element) : String := e.shape.name

/-- The element of a path. -/
def ofPath (p : PathElement) : Element := ⟨.path p.data, p.paint⟩

end Element

end VectorIcon

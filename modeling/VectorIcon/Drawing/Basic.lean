/-
  VectorIcon.Drawing.Basic
  ────────────────────────────────
  **DRAWINGS.**

  A drawing is what an icon is made of: a canvas and a list of paths in the
  order in which they are painted.
-/
import VectorIcon.Element.Basic

namespace VectorIcon

/-- Nominal size and coordinate system of a drawing. -/
structure Canvas where
  width : Scalar
  height : Scalar
  viewBox : ViewBox
deriving BEq, Inhabited

/-- Paths on a canvas. -/
structure Drawing where
  canvas : Canvas
  paths : List PathElement
deriving BEq, Inhabited

end VectorIcon

/-
  VectorIcon.Element.Outline
  ────────────────────────────────
  **SHAPES DRAWN BY PATH COMMANDS.**

  Every basic shape has an outline of path commands.  `Element.toPath` is the
  path which draws the same shape with the same paint; the data of a path is
  kept as it is.
-/
import VectorIcon.Element.Basic
import VectorIcon.Path.Format
import VectorIcon.Path.Parser

namespace VectorIcon

/-- From the upper left corner around the box by lines along the axes. -/
def Rect.outline (r : Rect) : List Command :=
  [.moveTo .absolute ⟨r.x, r.y⟩, .horizontalTo .relative r.width, .verticalTo .relative r.height,
    .horizontalTo .relative (-r.width), .close]

/-- Two half ellipses, the first one from the leftmost point to the right. -/
def Ellipse.outline (e : Ellipse) : List Command :=
  let half : ArcShape := ⟨⟨e.rx, e.ry⟩, 0.0, true, false⟩
  [.moveTo .absolute ⟨e.cx - e.rx, e.cy⟩, .arcTo .relative half ⟨2.0 * e.rx, 0.0⟩,
    .arcTo .relative half ⟨-2.0 * e.rx, 0.0⟩, .close]

/-- The outline of an ellipse with equal radii. -/
def Circle.outline (c : Circle) : List Command := Ellipse.outline ⟨c.cx, c.cy, c.r, c.r⟩

/-- Lines through the points; without points nothing is drawn. -/
def Polygon.outline (p : Polygon) : List Command :=
  match p.points with
  | [] => []
  | q :: qs =>
    .moveTo .absolute q :: qs.map (.lineTo .absolute) ++ (if p.closed then [.close] else [])

namespace Shape

/-- The commands of a basic shape; a path has data of its own. -/
def outline : Shape → List Command
  | .path _ => []
  | .circle c => c.outline
  | .rect r => r.outline
  | .ellipse e => e.outline
  | .polygon p => p.outline

/-- The path data of a shape. -/
def data : Shape → String
  | .path d => d
  | shape => Path.format shape.outline

end Shape

namespace Element

/-- The commands which draw the element, or why its path data is malformed. -/
def commands (e : Element) : Except Path.Error (List Command) :=
  match e.shape with
  | .path d => Path.parse d
  | shape => .ok shape.outline

/-- The path which draws the same. -/
def toPath (e : Element) : PathElement := ⟨e.shape.data, e.paint⟩

end Element

end VectorIcon

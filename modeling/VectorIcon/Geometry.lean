/-
  VectorIcon.Geometry
  ────────────────────────────────
  **POINTS, VIEW BOXES AND THE MAP INTO ICON SPACE.**

  A drawing lives in the coordinates of its view box; an icon lives in a square
  centered at the origin.  `Transform.fit` is the map between them: a uniform
  scale which brings the longer side of the view box to the size of the icon,
  after the center of the view box is moved to the origin.  All
  arithmetic is single precision in the order written here.
-/
import VectorIcon.Number.Compact

namespace VectorIcon

/-- Tolerance of approximate comparison, also the least sensible icon size. -/
def epsilon : Scalar := 0.0001

/-! ## §1. Points. -/

/-- A point of the plane or a vector. -/
structure Point where
  x : Scalar
  y : Scalar
deriving BEq, Inhabited

namespace Point

/-- The origin. -/
def origin : Point := ⟨0.0, 0.0⟩

instance : Add Point := ⟨fun p q => ⟨p.x + q.x, p.y + q.y⟩⟩

instance : Sub Point := ⟨fun p q => ⟨p.x - q.x, p.y - q.y⟩⟩

instance : HMul Scalar Point Point := ⟨fun s p => ⟨s * p.x, s * p.y⟩⟩

/-- The image of a point on the other side of a center. -/
def reflect (p center : Point) : Point := (2.0 : Scalar) * center - p

/-- Both coordinates differ by less than `eps`; false if a difference is NaN. -/
def isCloseTo (p q : Point) (eps : Scalar) : Bool :=
  decide ((p.x - q.x).abs < eps) && decide ((p.y - q.y).abs < eps)

/-- The text `x,y`. -/
def text (p : Point) : List Char := p.x.compactText ++ ',' :: p.y.compactText

end Point

/-! ## §2. View boxes. -/

/-- The rectangle of source coordinates which is shown. -/
structure ViewBox where
  minX : Scalar
  minY : Scalar
  width : Scalar
  height : Scalar
deriving BEq, Inhabited

namespace ViewBox

/-- The center of the rectangle. -/
def center (v : ViewBox) : Point := ⟨v.minX + v.width / 2.0, v.minY + v.height / 2.0⟩

end ViewBox

/-! ## §3. Transforms. -/

/-- `center` is moved to the origin, then a uniform scale is applied. -/
structure Transform where
  scale : Scalar
  center : Point
deriving BEq, Inhabited

namespace Transform

/-- The transform which fits a view box into the square of side `size` around
    the origin and keeps the aspect ratio. -/
def fit (v : ViewBox) (size : Scalar) : Transform :=
  ⟨size / v.width.maximum v.height, v.center⟩

/-- The image of a point. -/
def apply (t : Transform) (p : Point) : Point := t.scale * (p - t.center)

/-- The image of a horizontal coordinate. -/
def applyX (t : Transform) (x : Scalar) : Scalar := t.scale * (x - t.center.x)

/-- The image of a vertical coordinate. -/
def applyY (t : Transform) (y : Scalar) : Scalar := t.scale * (y - t.center.y)

/-- The image of a vector, which is only scaled. -/
def applyVector (t : Transform) (v : Point) : Point := t.scale * v

/-- The source point of an image, up to rounding. -/
def invert (t : Transform) (p : Point) : Point := ((1.0 : Scalar) / t.scale) * p + t.center

/-- The text `scale(s) center(x,y)`. -/
def text (t : Transform) : List Char :=
  "scale(".toList ++ t.scale.compactText ++ ") center(".toList ++ t.center.text ++ [')']

end Transform

end VectorIcon

/-
  VectorIcon.Icon.Reference
  ────────────────────────────────
  **THE SEGMENTS A PATH SHOULD HAVE IN ICON SPACE.**

  The segments of path data, mapped into icon space, with every sub-path closed
  exactly once: a move closes an open sub-path, a second close in a row does
  not count, drawing after a close begins a new sub-path at the same start, and
  the end of the path closes the last one.  This is what an icon of the path
  shows up to rounding, see `segmentsClose`.
-/
import VectorIcon.Path.Segment

namespace VectorIcon

namespace Icon

/-! ## §1. Segments in icon space. -/

/-- The image of a segment.  Radii are lengths and only scaled; the rotation is
    brought into one turn. -/
def mapSegment (t : Transform) : Segment → Segment
  | .move target => .move (t.apply target)
  | .line target => .line (t.apply target)
  | .quad control target => .quad (t.apply control) (t.apply target)
  | .cubic first second target => .cubic (t.apply first) (t.apply second) (t.apply target)
  | .arc shape target =>
    .arc ⟨t.scale * shape.radii, shape.rotation.withinTurn, shape.large, shape.sweep⟩ (t.apply target)
  | .close start => .close (t.apply start)

/-! ## §2. Closed sub-paths. -/

/-- Where the current sub-path starts and whether it is closed. -/
structure SubPath where
  start : Point
  closed : Bool
deriving Inhabited

/-- Close every sub-path once.  Before the first move there is no sub-path;
    what is drawn there is kept. -/
def closeSubPaths : Option SubPath → List Segment → List Segment
  | none, [] => []
  | some p, [] => if p.closed then [] else [.close p.start]
  | current, .move target :: ss =>
    let closing := match current with
      | some p => if p.closed then [] else [.close p.start]
      | none => []
    closing ++ .move target :: closeSubPaths (some ⟨target, false⟩) ss
  | some p, .close _ :: ss =>
    if p.closed then closeSubPaths (some p) ss
    else .close p.start :: closeSubPaths (some { p with closed := true }) ss
  | some p, s :: ss =>
    if p.closed then .move p.start :: s :: closeSubPaths (some { p with closed := false }) ss
    else s :: closeSubPaths (some p) ss
  | none, s :: ss => s :: closeSubPaths none ss

/-- The segments of commands in icon space. -/
def reference (t : Transform) (cs : List Command) : List Segment :=
  closeSubPaths none ((Path.resolve cs).map (mapSegment t))

/-! ## §3. Closeness. -/

/-- The points of a segment; radii and rotation of an arc count as points. -/
def segmentPoints : Segment → List Point
  | .move target | .line target | .close target => [target]
  | .quad control target => [control, target]
  | .cubic first second target => [first, second, target]
  | .arc shape target => [shape.radii, ⟨shape.rotation, 0.0⟩, target]

/-- The same kind of segment, with the same flags. -/
def sameKind : Segment → Segment → Bool
  | .move _, .move _ | .line _, .line _ | .quad _ _, .quad _ _ | .cubic _ _ _, .cubic _ _ _
  | .close _, .close _ => true
  | .arc s _, .arc s' _ => s.large == s'.large && s.sweep == s'.sweep
  | _, _ => false

/-- The same kind of segment with close points. -/
def segmentClose (eps : Scalar) (a b : Segment) : Bool :=
  sameKind a b && ((segmentPoints a).zip (segmentPoints b)).all fun p => p.1.isCloseTo p.2 eps

/-- As many segments, close one by one. -/
def segmentsClose (eps : Scalar) (as bs : List Segment) : Bool :=
  as.length == bs.length && (as.zip bs).all fun p => segmentClose eps p.1 p.2

end Icon

end VectorIcon

/-
  VectorIcon.Path.Segment
  ────────────────────────────────
  **FROM COMMANDS TO ABSOLUTE SEGMENTS.**

  A segment spells out everything a command leaves to the state of the pen:
  absolute coordinates, the control point of a smooth curve, the point to which
  a close returns.  A `Cursor` is that state.  `Cursor.resolve` gives the
  segment of a command, `Cursor.step` also the state after it:

      smooth curve — the control point of the previous command, if it was a
                     curve of the same family, reflected at the current point;
                     the current point otherwise
      close        — back to the destination of the latest move
-/
import VectorIcon.Path.Command

namespace VectorIcon

/-! ## §1. Segments. -/

/-- A piece of an outline in absolute coordinates. -/
inductive Segment where
  | move (target : Point)
  | line (target : Point)
  | quad (control target : Point)
  | cubic (first second target : Point)
  | arc (shape : ArcShape) (target : Point)
  /-- Back to the start of the sub-path. -/
  | close (start : Point)
deriving BEq, Inhabited

namespace Segment

/-- Where the segment ends. -/
def destination : Segment → Point
  | .move target | .line target | .quad _ target | .cubic _ _ target | .arc _ target | .close target => target

end Segment

/-! ## §2. The cursor. -/

/-- The curves with control points; a smooth command reflects only the control
    point of its own family. -/
inductive CurveFamily where
  | quad
  | cubic
deriving DecidableEq, Repr, Inhabited

/-- The state between two commands of a path. -/
structure Cursor where
  position : Point
  /-- Start of the current sub-path. -/
  start : Point
  /-- The last control point of the previous command, if it was a curve. -/
  control : Option (CurveFamily × Point)
deriving Inhabited

namespace Cursor

/-- The state before the first command. -/
def initial : Cursor := ⟨.origin, .origin, none⟩

/-- The control point of the previous command, if that was a curve of the
    family. -/
def previousControl? (c : Cursor) (family : CurveFamily) : Option Point :=
  match c.control with
  | some (f, p) => if f = family then some p else none
  | none => none

/-- The control point which a smooth curve of the family implies. -/
def smoothControl (c : Cursor) (family : CurveFamily) : Point :=
  match c.previousControl? family with
  | some p => p.reflect c.position
  | none => c.position

/-- An operand in absolute coordinates. -/
def point (c : Cursor) (frame : Frame) (p : Point) : Point :=
  match frame with
  | .absolute => p
  | .relative => p + c.position

/-- One coordinate of an operand, given that coordinate of the position. -/
def coordinate (frame : Frame) (position v : Scalar) : Scalar :=
  match frame with
  | .absolute => v
  | .relative => position + v

/-- The segment which a command draws. -/
def resolve (c : Cursor) : Command → Segment
  | .moveTo f target => .move (c.point f target)
  | .lineTo f target => .line (c.point f target)
  | .horizontalTo f x => .line ⟨coordinate f c.position.x x, c.position.y⟩
  | .verticalTo f y => .line ⟨c.position.x, coordinate f c.position.y y⟩
  | .cubicTo f first second target => .cubic (c.point f first) (c.point f second) (c.point f target)
  | .smoothCubicTo f second target =>
    .cubic (c.smoothControl .cubic) (c.point f second) (c.point f target)
  | .quadTo f control target => .quad (c.point f control) (c.point f target)
  | .smoothQuadTo f target => .quad (c.smoothControl .quad) (c.point f target)
  | .arcTo f shape target => .arc shape (c.point f target)
  | .close => .close c.start

/-- The control point which a segment leaves for a smooth curve. -/
def controlAfter : Segment → Option (CurveFamily × Point)
  | .quad control _ => some (.quad, control)
  | .cubic _ second _ => some (.cubic, second)
  | _ => none

/-- The state after a segment: only a move starts a sub-path. -/
def advance (c : Cursor) (s : Segment) : Cursor where
  position := s.destination
  start := match s with
    | .move target => target
    | _ => c.start
  control := controlAfter s

/-- The segment of a command and the state after it. -/
def step (c : Cursor) (cmd : Command) : Segment × Cursor :=
  let s := c.resolve cmd
  (s, c.advance s)

/-- The segments of commands drawn from a state. -/
def resolveAll (c : Cursor) : List Command → List Segment
  | [] => []
  | cmd :: cs => (c.step cmd).1 :: resolveAll (c.step cmd).2 cs

end Cursor

namespace Path

/-- The segments of a whole path. -/
def resolve (cs : List Command) : List Segment := Cursor.initial.resolveAll cs

end Path

end VectorIcon

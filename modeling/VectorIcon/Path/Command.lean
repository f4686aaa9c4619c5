/-
  VectorIcon.Path.Command
  ────────────────────────────────
  **THE COMMANDS OF PATH DATA.**

  A path is drawn by commands, each named by a letter and followed by operands.
  An upper case letter gives the operands in absolute coordinates, a lower case
  letter as offsets from the current point; closing has no operands and no such
  distinction, it is written `Z`.
-/
import VectorIcon.Geometry

namespace VectorIcon

/-- How the operands of a command are meant. -/
inductive Frame where
  /-- Coordinates of the plane. -/
  | absolute
  /-- Offsets from the current point. -/
  | relative
deriving DecidableEq, Repr, Inhabited

/-- The shape of an elliptic arc, up to its end points. -/
structure ArcShape where
  radii : Point
  /-- Rotation of the ellipse in degrees. -/
  rotation : Scalar
  large : Bool
  sweep : Bool
deriving BEq, Inhabited

/-- A command of path data, as it was written. -/
inductive Command where
  | moveTo (frame : Frame) (target : Point)
  | lineTo (frame : Frame) (target : Point)
  | horizontalTo (frame : Frame) (x : Scalar)
  | verticalTo (frame : Frame) (y : Scalar)
  | cubicTo (frame : Frame) (first second target : Point)
  /-- A cubic whose first control point reflects the one before it. -/
  | smoothCubicTo (frame : Frame) (second target : Point)
  | quadTo (frame : Frame) (control target : Point)
  /-- A quadratic whose control point reflects the one before it. -/
  | smoothQuadTo (frame : Frame) (target : Point)
  | arcTo (frame : Frame) (shape : ArcShape) (target : Point)
  | close
deriving BEq, Inhabited

/-! ## §1. Letters. -/

/-- What a command does, without its operands. -/
inductive CommandKind where
  | move
  | line
  | horizontal
  | vertical
  | cubic
  | smoothCubic
  | quad
  | smoothQuad
  | arc
  | close
deriving DecidableEq, Repr, Inhabited

/-- A command letter. -/
structure CommandLetter where
  kind : CommandKind
  frame : Frame
deriving DecidableEq, Repr, Inhabited

namespace CommandLetter

/-- The upper case letter of a kind. -/
def upper : CommandKind → Char
  | .move => 'M'
  | .line => 'L'
  | .horizontal => 'H'
  | .vertical => 'V'
  | .cubic => 'C'
  | .smoothCubic => 'S'
  | .quad => 'Q'
  | .smoothQuad => 'T'
  | .arc => 'A'
  | .close => 'Z'

/-- The lower case letter of a kind. -/
def lower : CommandKind → Char
  | .move => 'm'
  | .line => 'l'
  | .horizontal => 'h'
  | .vertical => 'v'
  | .cubic => 'c'
  | .smoothCubic => 's'
  | .quad => 'q'
  | .smoothQuad => 't'
  | .arc => 'a'
  | .close => 'z'

/-- The letter as it is written. -/
def toChar (l : CommandLetter) : Char :=
  match l.frame with
  | .absolute => upper l.kind
  | .relative => lower l.kind

/-- The command letter a character stands for. -/
def ofChar? : Char → Option CommandLetter
  | 'M' => some ⟨.move, .absolute⟩
  | 'm' => some ⟨.move, .relative⟩
  | 'L' => some ⟨.line, .absolute⟩
  | 'l' => some ⟨.line, .relative⟩
  | 'H' => some ⟨.horizontal, .absolute⟩
  | 'h' => some ⟨.horizontal, .relative⟩
  | 'V' => some ⟨.vertical, .absolute⟩
  | 'v' => some ⟨.vertical, .relative⟩
  | 'C' => some ⟨.cubic, .absolute⟩
  | 'c' => some ⟨.cubic, .relative⟩
  | 'S' => some ⟨.smoothCubic, .absolute⟩
  | 's' => some ⟨.smoothCubic, .relative⟩
  | 'Q' => some ⟨.quad, .absolute⟩
  | 'q' => some ⟨.quad, .relative⟩
  | 'T' => some ⟨.smoothQuad, .absolute⟩
  | 't' => some ⟨.smoothQuad, .relative⟩
  | 'A' => some ⟨.arc, .absolute⟩
  | 'a' => some ⟨.arc, .relative⟩
  | 'Z' => some ⟨.close, .absolute⟩
  | 'z' => some ⟨.close, .relative⟩
  | _ => none

/-- The letter which operands without a letter continue: a move goes on with
    lines, and nothing continues a close. -/
def continued? (l : CommandLetter) : Option CommandLetter :=
  match l.kind with
  | .move => some ⟨.line, l.frame⟩
  | .close => none
  | _ => some l

/-- A written letter is read back. -/
theorem ofChar?_toChar (l : CommandLetter) : ofChar? l.toChar = some l := by
  obtain ⟨kind, frame⟩ := l
  cases kind <;> cases frame <;> rfl

end CommandLetter

namespace Command

/-- What the command does. -/
def kind : Command → CommandKind
  | .moveTo .. => .move
  | .lineTo .. => .line
  | .horizontalTo .. => .horizontal
  | .verticalTo .. => .vertical
  | .cubicTo .. => .cubic
  | .smoothCubicTo .. => .smoothCubic
  | .quadTo .. => .quad
  | .smoothQuadTo .. => .smoothQuad
  | .arcTo .. => .arc
  | .close => .close

/-- How the operands are meant; a close counts as absolute. -/
def frame : Command → Frame
  | .moveTo f _ | .lineTo f _ | .horizontalTo f _ | .verticalTo f _ | .cubicTo f _ _ _
  | .smoothCubicTo f _ _ | .quadTo f _ _ | .smoothQuadTo f _ | .arcTo f _ _ => f
  | .close => .absolute

/-- The letter the command is written with. -/
def letter (c : Command) : CommandLetter := ⟨c.kind, c.frame⟩

end Command

end VectorIcon

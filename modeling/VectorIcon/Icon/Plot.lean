/-
  VectorIcon.Icon.Plot
  ────────────────────────────────
  **WHAT THE INSTRUCTIONS OF AN ICON DRAW.**

  A plotter follows instructions and draws absolute segments in icon space.
  Each segment is labelled by the letter of the path command it amounts to,
  lower case if the operands were relative.  A relative operand counts from the
  plotter's position; a smooth curve reflects the last control point of its own
  family.
-/
import VectorIcon.Icon.Instruction

namespace VectorIcon

namespace Icon

/-- A segment and the letter it is labelled by. -/
structure Stroke where
  letter : Char
  segment : Segment
deriving BEq, Inhabited

/-- The state between two instructions. -/
structure Plotter where
  position : Point
  /-- Start of the current sub-path. -/
  start : Point
  /-- The last control point, if the latest instruction drew a curve. -/
  control : Option (CurveFamily × Point)
deriving Inhabited

namespace Plotter

/-- The plotter after the start of a path. -/
def startingAt (p : Point) : Plotter := ⟨p, p, none⟩

/-- An operand in absolute coordinates. -/
def point (p : Plotter) (frame : Frame) (q : Point) : Point :=
  match frame with
  | .absolute => q
  | .relative => p.position + q

/-- One coordinate of an operand. -/
def coordinate (frame : Frame) (position v : Scalar) : Scalar :=
  match frame with
  | .absolute => v
  | .relative => position + v

/-- The control point which a smooth curve of the family implies. -/
def smoothControl (p : Plotter) (family : CurveFamily) : Point :=
  match p.control with
  | some (f, c) => if f = family then c.reflect p.position else p.position
  | none => p.position

/-- The label of an instruction. -/
def label (frame : Frame) (upper lower : Char) : Char :=
  match frame with
  | .absolute => upper
  | .relative => lower

/-- Draw one segment. -/
def stroke (p : Plotter) (letter : Char) (s : Segment)
    (control : Option (CurveFamily × Point)) : List Stroke × Plotter :=
  ([⟨letter, s⟩], ⟨s.destination, p.start, control⟩)

/-- Close the current sub-path. -/
def close (p : Plotter) : Stroke × Plotter := (⟨'Z', .close p.start⟩, ⟨p.start, p.start, none⟩)

/-- Follow one instruction. -/
def step (p : Plotter) : Instruction → List Stroke × Plotter
  | .line f target => p.stroke (label f 'L' 'l') (.line (p.point f target)) none
  | .smoothQuad f target =>
    let control := p.smoothControl .quad
    p.stroke (label f 'T' 't') (.quad control (p.point f target)) (some (.quad, control))
  | .quad f control target =>
    let control := p.point f control
    p.stroke (label f 'Q' 'q') (.quad control (p.point f target)) (some (.quad, control))
  | .smoothCubic f second target =>
    let second := p.point f second
    p.stroke (label f 'S' 's') (.cubic (p.smoothControl .cubic) second (p.point f target))
      (some (.cubic, second))
  | .cubic f first second target =>
    let second := p.point f second
    p.stroke (label f 'C' 'c') (.cubic (p.point f first) second (p.point f target))
      (some (.cubic, second))
  | .arc f radii rotation large sweep target =>
    p.stroke (label f 'A' 'a')
      (.arc ⟨radii, rotation * Scalar.turn, large, sweep⟩ (p.point f target)) none
  | .horizontal f x =>
    p.stroke (label f 'H' 'h') (.line ⟨coordinate f p.position.x x, p.position.y⟩) none
  | .vertical f y =>
    p.stroke (label f 'V' 'v') (.line ⟨p.position.x, coordinate f p.position.y y⟩) none
  | .closeMove f target =>
    let (z, p) := p.close
    let target := p.point f target
    ([z, ⟨label f 'M' 'm', .move target⟩], .startingAt target)
  | .endPath =>
    let (z, p) := p.close
    ([z], p)

/-- Follow instructions. -/
def run (p : Plotter) : List Instruction → List Stroke
  | [] => []
  | i :: is => (p.step i).1 ++ run (p.step i).2 is

end Plotter

end Icon

end VectorIcon

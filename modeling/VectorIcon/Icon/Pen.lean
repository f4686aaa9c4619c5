/-
  VectorIcon.Icon.Pen
  ────────────────────────────────
  **DRAWING A PATH WITH THE SHORTER OPERANDS.**

  A pen takes the commands of a path to instructions in icon space.  Every
  operand can be written in absolute coordinates or relative to the pen; the
  absolute form is chosen if it takes strictly fewer bytes.  The pen stands
  where a reader of the icon will find it: at the quantized target of an
  absolute form, or at its own place moved by the quantized offset of a relative
  form.  Rounding therefore never makes writer and reader disagree about the
  place an offset starts from.

  Closing is not an instruction of its own.  A close only brings the pen back to
  the start; the next move writes `closeMove`, the end of the path `endPath`,
  and drawing on after a close begins a new sub-path at the same point.
-/
import VectorIcon.Icon.Instruction

namespace VectorIcon

namespace Icon

/-! ## §1. Operands in both forms. -/

/-- A point in both forms. -/
structure Operand where
  absolute : Point
  relative : Point

namespace Operand

/-- The form of an operand. -/
def inFrame (o : Operand) : Frame → Point
  | .absolute => o.absolute
  | .relative => o.relative

/-- Bytes of the operands in one form. -/
def size (f : Frame) : List Operand → Nat
  | [] => 0
  | o :: os => pointSize (o.inFrame f) + size f os

/-- The form in which operands are written: absolute if that is strictly
    shorter. -/
def shorter (os : List Operand) : Frame :=
  if size .absolute os < size .relative os then .absolute else .relative

end Operand

/-! ## §2. The pen. -/

/-- The state between two commands. -/
structure Pen where
  position : Point
  /-- Start of the current sub-path. -/
  start : Point
  /-- The family of the latest instruction, if it drew a curve. -/
  family : Option CurveFamily
  /-- Whether the current sub-path is closed. -/
  closed : Bool
deriving Inhabited

namespace Pen

/-- The pen after the start of a path. -/
def startingAt (p : Point) : Pen := ⟨p, p, none, false⟩

/-- A source operand in both forms. -/
def operand (pen : Pen) (t : Transform) (frame : Frame) (p : Point) : Operand :=
  match frame with
  | .absolute =>
    let target := t.apply p
    ⟨target, target - pen.position⟩
  | .relative =>
    let offset := t.applyVector p
    ⟨pen.position + offset, offset⟩

/-- The pen itself as an operand. -/
def here (pen : Pen) : Operand := ⟨pen.position, .origin⟩

/-- Where the pen arrives by an operand in the given form. -/
def arrival (pen : Pen) (frame : Frame) (target : Operand) : Point :=
  match frame with
  | .absolute => quantize target.absolute
  | .relative => pen.position + quantize target.relative

/-- The pen after an instruction which draws to an operand. -/
def drawn (pen : Pen) (frame : Frame) (target : Operand) (family : Option CurveFamily) : Pen :=
  { pen with position := pen.arrival frame target, family := family }

/-- Close the sub-path and start a new one at a target.  The offset counts from
    the start of the closed sub-path. -/
def closeMove (pen : Pen) (target : Point) : Instruction × Pen :=
  let target : Operand := ⟨target, target - pen.start⟩
  let frame := Operand.shorter [target]
  let position := { pen with position := pen.start }.arrival frame target
  (.closeMove frame (target.inFrame frame), .startingAt position)

/-- One coordinate of the pen, of a target and of the offset between them. -/
def axisForms (frame : Frame) (position target offset : Scalar) : Scalar × Scalar :=
  match frame with
  | .absolute => (target, target - position)
  | .relative => (position + offset, offset)

/-- Form, operand and arrival of a line along an axis. -/
def axisLine (position : Scalar) (forms : Scalar × Scalar) : Frame × Scalar × Scalar :=
  if coordinateSize forms.1 < coordinateSize forms.2 then
    (.absolute, forms.1, quantizeCoordinate forms.1)
  else (.relative, forms.2, position + quantizeCoordinate forms.2)

/-! ## §3. Commands. -/

/-- The instructions of a command on an open sub-path. -/
def draw (pen : Pen) (t : Transform) : Command → List Instruction × Pen
  | .moveTo f target =>
    let (i, pen) := pen.closeMove (pen.operand t f target).absolute
    ([i], pen)
  | .lineTo f target =>
    let target := pen.operand t f target
    let frame := Operand.shorter [target]
    ([.line frame (target.inFrame frame)], pen.drawn frame target none)
  | .horizontalTo f x =>
    let (frame, v, arrival) :=
      axisLine pen.position.x (axisForms f pen.position.x (t.applyX x) (t.scale * x))
    ([.horizontal frame v], { pen with position := ⟨arrival, pen.position.y⟩, family := none })
  | .verticalTo f y =>
    let (frame, v, arrival) :=
      axisLine pen.position.y (axisForms f pen.position.y (t.applyY y) (t.scale * y))
    ([.vertical frame v], { pen with position := ⟨pen.position.x, arrival⟩, family := none })
  | .cubicTo f first second target => cubic pen (pen.operand t f first) (pen.operand t f second)
      (pen.operand t f target)
  | .smoothCubicTo f second target =>
    let second := pen.operand t f second
    let target := pen.operand t f target
    if pen.family = some .cubic then
      let frame := Operand.shorter [second, target]
      ([.smoothCubic frame (second.inFrame frame) (target.inFrame frame)],
        pen.drawn frame target (some .cubic))
    else cubic pen pen.here second target
  | .quadTo f control target => quad pen (pen.operand t f control) (pen.operand t f target)
  | .smoothQuadTo f target =>
    let target := pen.operand t f target
    if pen.family = some .quad then
      let frame := Operand.shorter [target]
      ([.smoothQuad frame (target.inFrame frame)], pen.drawn frame target (some .quad))
    else quad pen pen.here target
  | .arcTo f shape target =>
    let target := pen.operand t f target
    let frame := Operand.shorter [target]
    ([.arc frame (t.applyVector shape.radii) (shape.rotation.withinTurn / Scalar.turn) shape.large
        shape.sweep (target.inFrame frame)],
      pen.drawn frame target none)
  | .close => ([], { pen with position := pen.start, family := none, closed := true })
where
  /-- A cubic with both control points. -/
  cubic (pen : Pen) (first second target : Operand) : List Instruction × Pen :=
    let frame := Operand.shorter [first, second, target]
    ([.cubic frame (first.inFrame frame) (second.inFrame frame) (target.inFrame frame)],
      pen.drawn frame target (some .cubic))
  /-- A quadratic with its control point. -/
  quad (pen : Pen) (control target : Operand) : List Instruction × Pen :=
    let frame := Operand.shorter [control, target]
    ([.quad frame (control.inFrame frame) (target.inFrame frame)], pen.drawn frame target (some .quad))

/-- Whether a command draws, so that it needs an open sub-path. -/
def needsOpen : Command → Bool
  | .moveTo _ _ | .close => false
  | _ => true

/-- The instructions of a command.  To draw on a closed sub-path, the pen first
    starts a new one where it is. -/
def step (pen : Pen) (t : Transform) (c : Command) : List Instruction × Pen :=
  if pen.closed && needsOpen c then
    let (i, pen) := pen.closeMove pen.start
    let (is, pen) := pen.draw t c
    (i :: is, pen)
  else pen.draw t c

/-- The instructions of commands. -/
def drawAll (pen : Pen) (t : Transform) : List Command → List Instruction
  | [] => []
  | c :: cs => (pen.step t c).1 ++ drawAll (pen.step t c).2 t cs

end Pen

/-! ## §4. Paths. -/

/-- A path in icon space: its start, and its instructions up to the end. -/
structure Outline where
  start : Point
  body : List Instruction

namespace Outline

/-- The outline of commands which begin with a move.  There is no current point
    yet, therefore a relative move counts from the source origin. -/
def ofCommands? (t : Transform) : List Command → Option Outline
  | .moveTo _ target :: cs =>
    let start := quantize (t.apply target)
    some ⟨start, (Pen.startingAt start).drawAll t cs ++ [.endPath]⟩
  | _ => none

/-- The bytes of a path drawn with the given color adjustment. -/
def bytes (adjustment : UInt8) (o : Outline) : List UInt8 :=
  (0xc0 ||| adjustment) :: (pointBytes o.start ++ instructionBytes o.body)

end Outline

end Icon

end VectorIcon

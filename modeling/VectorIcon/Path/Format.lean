/-
  VectorIcon.Path.Format
  ────────────────────────────────
  **WRITING PATH DATA.**

  Commands are written back to back: the letter, then the operands with one
  space between them.  The letter of the next command is all that ends the last
  operand of a command.
-/
import VectorIcon.Path.Command

namespace VectorIcon

namespace Path

/-- The flag digit of an arc. -/
def flagChar (b : Bool) : Char := if b then '1' else '0'

/-- Two coordinates with a space between them. -/
def pointText (p : Point) : List Char := p.x.compactText ++ ' ' :: p.y.compactText

/-- Points with a space between them. -/
def pointsText : List Point → List Char
  | [] => []
  | [p] => pointText p
  | p :: ps => pointText p ++ ' ' :: pointsText ps

/-- The operands of a command. -/
def operandsText : Command → List Char
  | .moveTo _ target | .lineTo _ target | .smoothQuadTo _ target => pointsText [target]
  | .horizontalTo _ v | .verticalTo _ v => v.compactText
  | .cubicTo _ first second target => pointsText [first, second, target]
  | .smoothCubicTo _ second target => pointsText [second, target]
  | .quadTo _ control target => pointsText [control, target]
  | .arcTo _ shape target =>
    pointText shape.radii ++ ' ' :: shape.rotation.compactText ++
      [' ', flagChar shape.large, ' ', flagChar shape.sweep, ' '] ++ pointText target
  | .close => []

/-- A command alone. -/
def commandText (c : Command) : List Char := c.letter.toChar :: operandsText c

/-- The characters of path data. -/
def formatChars (cs : List Command) : List Char := cs.flatMap commandText

/-- Path data which draws the commands. -/
def format (cs : List Command) : String := String.ofList (formatChars cs)

end Path

end VectorIcon

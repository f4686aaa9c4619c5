/-
  VectorIcon.Icon.Color
  ────────────────────────────────
  **DIRECT COLORS OF ICONS.**

  An icon stores a premultiplied color in one to four bytes:

      1 byte    0 … 124   opaque, three digits of base 5 over five levels
                125, 126  two translucent grays
                127       transparent black
                128 …     entries of a palette, no color of their own
      2 bytes   four components of four bits, each repeated
      3 bytes   opaque, red, green and blue
      4 bytes   red, green, blue and alpha

  `DirectColor.meaning?` reads that table; `DirectColor.ofPremultiplied` takes
  the first form, in this order, which can hold a color.
-/
import VectorIcon.Color

namespace VectorIcon

namespace Icon

/-- The byte of a transparent color. -/
def transparentByte : UInt8 := 0x7f

/-- The byte which stands for the first entry of the custom palette. -/
def firstPaletteByte : UInt8 := 0x80

/-- A color of an icon in one of its four forms. -/
inductive DirectColor where
  | one (index : UInt8)
  | two (redGreen blueAlpha : UInt8)
  | three (red green blue : UInt8)
  | four (red green blue alpha : UInt8)
deriving DecidableEq, Repr, Inhabited

namespace DirectColor

/-- The number of bytes less one, which names the form. -/
def form : DirectColor → UInt8
  | .one _ => 0
  | .two _ _ => 1
  | .three _ _ _ => 2
  | .four _ _ _ _ => 3

/-- The bytes of the color. -/
def bytes : DirectColor → List UInt8
  | .one i => [i]
  | .two rg ba => [rg, ba]
  | .three r g b => [r, g, b]
  | .four r g b a => [r, g, b, a]

theorem length_bytes (c : DirectColor) : c.bytes.length = c.form.toNat + 1 := by
  cases c <;> rfl

/-! ## §1. Levels of the one byte form. -/

/-- The component levels of the one byte form. -/
def levels : List UInt8 := [0x00, 0x40, 0x80, 0xc0, 0xff]

/-- The digit of a level. -/
def levelDigit? (component : UInt8) : Option Nat := levels.findIdx? (· = component)

/-- The level of a digit. -/
def level (digit : Nat) : UInt8 := levels.getD digit 0

/-- Both halves of a byte are the same. -/
def isRepeated (component : UInt8) : Bool := component.toNat % 17 = 0

/-- The component with the given half in both places. -/
def repeated (half : Nat) : UInt8 := UInt8.ofNat (17 * half)

/-! ## §2. What a color means. -/

/-- The premultiplied color, none for a palette entry. -/
def meaning? : DirectColor → Option Rgba
  | .one i =>
    let n := i.toNat
    if n < 125 then some ⟨level (n / 25), level (n / 5 % 5), level (n % 5), 255⟩
    else if n = 125 then some ⟨0xc0, 0xc0, 0xc0, 0xc0⟩
    else if n = 126 then some ⟨0x80, 0x80, 0x80, 0x80⟩
    else if n = 127 then some ⟨0, 0, 0, 0⟩
    else none
  | .two rg ba =>
    some ⟨repeated (rg.toNat / 16), repeated (rg.toNat % 16), repeated (ba.toNat / 16),
      repeated (ba.toNat % 16)⟩
  | .three r g b => some ⟨r, g, b, 255⟩
  | .four r g b a => some ⟨r, g, b, a⟩

/-! ## §3. The form of a color. -/

/-- The one byte form of a premultiplied color, if it has one. -/
def oneByte? (c : Rgba) : Option UInt8 :=
  if c = ⟨0xc0, 0xc0, 0xc0, 0xc0⟩ then some 125
  else if c = ⟨0x80, 0x80, 0x80, 0x80⟩ then some 126
  else if c = ⟨0, 0, 0, 0⟩ then some transparentByte
  else if c.alpha = 255 then do
    let r ← levelDigit? c.red
    let g ← levelDigit? c.green
    let b ← levelDigit? c.blue
    return UInt8.ofNat (25 * r + 5 * g + b)
  else none

/-- The upper halves of two bytes in one. -/
def joinHalves (high low : UInt8) : UInt8 := UInt8.ofNat (high.toNat / 16 * 16 + low.toNat / 16)

/-- The shortest form of a premultiplied color. -/
def ofPremultiplied (c : Rgba) : DirectColor :=
  match oneByte? c with
  | some i => .one i
  | none =>
    if isRepeated c.red && isRepeated c.green && isRepeated c.blue && isRepeated c.alpha then
      .two (joinHalves c.red c.green) (joinHalves c.blue c.alpha)
    else if c.alpha = 255 then .three c.red c.green c.blue
    else .four c.red c.green c.blue c.alpha

/-- The shortest form of a color. -/
def ofRgba (c : Rgba) : DirectColor := ofPremultiplied c.premultiplied

end DirectColor

end Icon

end VectorIcon

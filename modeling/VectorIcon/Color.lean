/-
  VectorIcon.Color
  ────────────────────────────────
  **COLORS AND THEIR TEXT.**

  A color has red, green, blue and alpha of eight bits each, not premultiplied.
  Its text is `#rrggbb`, followed by `aa` unless it is opaque; besides, `#rgb`
  stands for doubled digits, digits may be upper case, and white space around
  the text does not count.
-/
import VectorIcon.Text.Blank
import VectorIcon.Text.Hexadecimal
import VectorIcon.Text.Quoted
import VectorIcon.Number.Scalar

namespace VectorIcon

/-- A color, not premultiplied. -/
structure Rgba where
  red : UInt8
  green : UInt8
  blue : UInt8
  alpha : UInt8
deriving DecidableEq, Repr, Inhabited

namespace Rgba

/-- Opaque black, the color an icon is drawn with by default. -/
def black : Rgba := ⟨0, 0, 0, 255⟩

/-! ## §1. Components. -/

/-- The components in one word, alpha in the highest byte and red in the
    lowest; colors are ordered by it. -/
def packed (c : Rgba) : UInt32 :=
  c.alpha.toUInt32 <<< 24 ||| c.blue.toUInt32 <<< 16 ||| c.green.toUInt32 <<< 8 ||| c.red.toUInt32

/-- A component scaled by alpha, to the nearest. -/
def scaleByAlpha (c alpha : UInt8) : UInt8 := UInt8.ofNat ((c.toNat * alpha.toNat + 127) / 255)

/-- The color with its components scaled by alpha. -/
def premultiplied (c : Rgba) : Rgba :=
  ⟨scaleByAlpha c.red c.alpha, scaleByAlpha c.green c.alpha, scaleByAlpha c.blue c.alpha, c.alpha⟩

/-! ## §2. Writing. -/

/-- The text of a color. -/
def text (c : Rgba) : List Char :=
  '#' :: (Text.byteText c.red ++ Text.byteText c.green ++ Text.byteText c.blue ++
    (if c.alpha = 255 then [] else Text.byteText c.alpha))

/-! ## §3. Reading. -/

/-- The byte of two digits. -/
def byteOf (high low : Nat) : UInt8 := UInt8.ofNat (16 * high + low)

/-- The color of three, six or eight digits. -/
def ofDigits? : List Nat → Option Rgba
  | [r, g, b] => some ⟨byteOf r r, byteOf g g, byteOf b b, 255⟩
  | [r, r', g, g', b, b'] => some ⟨byteOf r r', byteOf g g', byteOf b b', 255⟩
  | [r, r', g, g', b, b', a, a'] => some ⟨byteOf r r', byteOf g g', byteOf b b', byteOf a a'⟩
  | _ => none

/-- Read the text of a color. -/
def parse? (text : List Char) : Option Rgba :=
  match Text.trim text with
  | '#' :: digits => (digits.mapM Text.hexDigit?).bind ofDigits?
  | _ => none

/-! ## §4. Sorted sets of colors. -/

/-- Insert a color into a list which ascends by the packed word. -/
def insert (c : Rgba) : List Rgba → List Rgba
  | [] => [c]
  | d :: ds =>
    if c.packed < d.packed then c :: d :: ds
    else if c.packed = d.packed then d :: ds
    else d :: insert c ds

/-- The distinct colors of a list, ascending by the packed word. -/
def sorted (cs : List Rgba) : List Rgba := cs.foldr insert []

end Rgba

/-! ## §5. Opacity. -/

/-- An opacity of `[0, 1]` as a weight of 255 steps, to the nearest; what lies
    outside is brought into the range and NaN weighs nothing. -/
def opacityWeight (opacity : Scalar) : UInt8 :=
  UInt8.ofNat (((opacity.clampUnit * 255.0).nearestInt?).getD 0).toNat

end VectorIcon

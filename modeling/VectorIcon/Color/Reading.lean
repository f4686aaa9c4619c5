/-
  VectorIcon.Color.Reading
  ────────────────────────────────
  **READING A COLOR BY ITS BYTES.**

  The text of a color is read by ranges of its bytes: after the mark all bytes
  must be hexadecimal digits, their number tells the form, and every component is
  the number which one or two of them write.  A range which would not lie between
  characters, or a component which would not fit a byte, has no result at all;
  that there is one for every text is shown in `Proofs.Color.Text`.
-/
import VectorIcon.Color
import VectorIcon.Error
import VectorIcon.Text.Range

namespace VectorIcon

/-- What a computation comes to: a value, an error, or nothing when a range of
    bytes is not a text or a number leaves its type. -/
abbrev Attempt (α : Type) := ExceptT Error Option α

namespace Text

/-- Whether a byte is a hexadecimal digit of either case. -/
def isHexByte (b : UInt8) : Bool :=
  (decide (0x30 ≤ b) && decide (b ≤ 0x39)) || (decide (0x41 ≤ b) && decide (b ≤ 0x46)) ||
    (decide (0x61 ≤ b) && decide (b ≤ 0x66))

/-- The number which hexadecimal digits write, the most significant first. -/
def hexValue (values : List Nat) : Nat := values.foldl (fun n v => 16 * n + v) 0

/-- The text without a plus at its front. -/
def dropPlus : List Char → List Char
  | '+' :: rest => rest
  | text => text

/-- The byte of a hexadecimal number, with an optional plus before its digits;
    none without digits and from 256 on. -/
def hexByte? (text : List Char) : Option UInt8 :=
  match (dropPlus text).mapM hexDigit? with
  | none | some [] => none
  | some values => if hexValue values < 256 then some (UInt8.ofNat (hexValue values)) else none

end Text

namespace Rgba

/-! ## §1. Packed words. -/

/-- The color of a packed word. -/
def ofPacked (w : UInt32) : Rgba :=
  ⟨w.toUInt8, (w >>> 8).toUInt8, (w >>> 16).toUInt8, (w >>> 24).toUInt8⟩

/-! ## §2. Reading. -/

/-- The error of a text which is not a color. -/
def invalid (text : List Char) : Error := .markup (.invalidColor text)

/-- The byte which a range of the digits of a text writes. -/
def component (text digits : List Char) (offset count : Nat) : Attempt UInt8 :=
  match Text.range? digits offset count with
  | none => ExceptT.mk none
  | some range =>
    match Text.hexByte? range with
    | some b => pure b
    | none => throw (invalid text)

/-- The byte which one digit of a text stands for when doubled. -/
def doubled (text digits : List Char) (offset : Nat) : Attempt UInt8 := do
  let b ← component text digits offset 1
  if b.toNat * 0x11 < 256 then pure (b * 0x11) else ExceptT.mk none

/-- The color of the digits of a text. -/
def ofDigits (text digits : List Char) : Attempt Rgba :=
  match Text.byteLength digits with
  | 3 => do
    let r ← doubled text digits 0
    let g ← doubled text digits 1
    let b ← doubled text digits 2
    return ⟨r, g, b, 255⟩
  | 6 => do
    let r ← component text digits 0 2
    let g ← component text digits 2 2
    let b ← component text digits 4 2
    return ⟨r, g, b, 255⟩
  | 8 => do
    let r ← component text digits 0 2
    let g ← component text digits 2 2
    let b ← component text digits 4 2
    let a ← component text digits 6 2
    return ⟨r, g, b, a⟩
  | _ => throw (invalid text)

/-- Read the text of a color. -/
def ofText (text : List Char) : Attempt Rgba :=
  match Text.trim text with
  | '#' :: digits =>
    if (Text.bytes digits).all Text.isHexByte then ofDigits text digits else throw (invalid text)
  | _ => throw (invalid text)

end Rgba

end VectorIcon

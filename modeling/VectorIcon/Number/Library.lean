/-
  VectorIcon.Number.Library
  ────────────────────────────────
  **TEXTS WHICH ARE NUMBERS AS A WHOLE.**

  The bytes of a text which is a number and nothing else are taken to their value
  by a `NumberLibrary`.  Besides numerals it knows words for the values which are
  not finite:

      [+-]? (nan | inf | infinity)       in any case

  The readers of path data and of attributes differ in what they hand over: the
  former a numeral which they have found themselves, the latter any text.
-/
import VectorIcon.Number.Decimal
import VectorIcon.Text.Utf8

namespace VectorIcon

/-- The number which the bytes of a text write, none if they write none. -/
abbrev NumberLibrary := List UInt8 → Option Scalar

namespace NumberLibrary

/-- The value of a word for what is not finite. -/
def word? (text : List Char) : Option Scalar :=
  let (negative, word) := Decimal.splitSign text
  let word := word.map Char.toLower
  if word = "nan".toList then some (Scalar.withSign negative (Float32.ofBits 0x7fc00000))
  else if word = "inf".toList ∨ word = "infinity".toList then
    some (Scalar.withSign negative Scalar.infinity)
  else none

/-- The library which reads numerals and words. -/
def standard : NumberLibrary := fun bytes =>
  let text := Text.Utf8.lossy bytes
  match Decimal.parse? text with
  | some d => some d.toScalar
  | none => word? text

end NumberLibrary

end VectorIcon

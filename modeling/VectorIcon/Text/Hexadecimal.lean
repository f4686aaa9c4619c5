/-
  VectorIcon.Text.Hexadecimal
  ────────────────────────────────
  **HEXADECIMAL DIGITS.**

  Digits are read in either case and written in lower case; a byte is written
  with two of them.
-/

namespace VectorIcon

namespace Text

/-- The value of a hexadecimal digit of either case. -/
def hexDigit? (c : Char) : Option Nat :=
  if '0' ≤ c ∧ c ≤ '9' then some (c.toNat - '0'.toNat)
  else if 'a' ≤ c ∧ c ≤ 'f' then some (c.toNat - 'a'.toNat + 10)
  else if 'A' ≤ c ∧ c ≤ 'F' then some (c.toNat - 'A'.toNat + 10)
  else none

/-- A byte with two digits. -/
def byteText (b : UInt8) : List Char :=
  [Nat.digitChar (b.toNat / 16), Nat.digitChar (b.toNat % 16)]

/-- The digits of a written byte are its halves. -/
theorem mapM_hexDigit?_byteText (b : UInt8) :
    (byteText b).mapM hexDigit? = some [b.toNat / 16, b.toNat % 16] := by
  have key : ∀ n < 16, hexDigit? (Nat.digitChar n) = some n := by decide
  have hhi := key (b.toNat / 16) (by have := b.toNat_lt; omega)
  have hlo := key (b.toNat % 16) (by omega)
  simp [byteText, hhi, hlo]

end Text

end VectorIcon

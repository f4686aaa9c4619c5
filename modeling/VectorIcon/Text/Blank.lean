/-
  VectorIcon.Text.Blank
  ────────────────────────────────
  **WHITE SPACE.**

  The characters with the Unicode property `White_Space`, and the removal of
  them at the ends of a text.
-/

namespace VectorIcon

namespace Text

/-- The Unicode property `White_Space`. -/
def isBlank (c : Char) : Bool :=
  let n := c.toNat
  (9 ≤ n && n ≤ 13) || n == 0x20 || n == 0x85 || n == 0xa0 || n == 0x1680 ||
    (0x2000 ≤ n && n ≤ 0x200a) || n == 0x2028 || n == 0x2029 || n == 0x202f || n == 0x205f ||
    n == 0x3000

/-- The text without white space at its beginning. -/
def trimStart (cs : List Char) : List Char := cs.dropWhile isBlank

/-- The text without white space at its end. -/
def trimEnd (cs : List Char) : List Char := (cs.reverse.dropWhile isBlank).reverse

/-- The text without white space around it. -/
def trim (cs : List Char) : List Char := trimEnd (trimStart cs)

end Text

end VectorIcon

/-
  VectorIcon.Text.Quoted
  ────────────────────────────────
  **QUOTED TEXT IN MESSAGES.**

  A message quotes a piece of the input between `"`.  A quote and a backslash
  are escaped by a backslash, so are the usual control characters, and what has
  no visible form of its own is shown as a code point in hexadecimal.
-/
import VectorIcon.Text.Unprintable
import VectorIcon.Text.Combining

namespace VectorIcon

namespace Text

/-- A code point between braces. -/
def codePointText (c : Char) : List Char :=
  '\\' :: 'u' :: '\x7b' :: (Nat.toDigits 16 c.toNat ++ ['\x7d'])

/-- A character between quotes. -/
def quotedChar (c : Char) : List Char :=
  match c with
  | '"' => ['\\', '"']
  | '\\' => ['\\', '\\']
  | '\n' => ['\\', 'n']
  | '\r' => ['\\', 'r']
  | '\t' => ['\\', 't']
  | '\x00' => ['\\', '0']
  | _ => if isCombining c || isUnprintable c then codePointText c else [c]

/-- A text between quotes. -/
def quoted (cs : List Char) : List Char := '"' :: (cs.flatMap quotedChar ++ ['"'])

end Text

end VectorIcon

/-
  VectorIcon.Json.Text
  ────────────────────────────────
  **WRITING JSON TEXT.**

  Text is written without white space.  Numbers have the fewest digits which
  read back; a number which is not finite is written as `null`.
-/
import VectorIcon.Number.Notation

namespace VectorIcon

namespace Json

/-- Positional from `0.000001` to below `1e13`; a positive exponent has a sign,
    and of two equally near decimals the even one is written. -/
def numberNotation : DecimalNotation where
  leastPositional := -6
  greatestPositional := 12
  pointBeforeExponent := false
  plusInExponent := true
  preference := ⟨.toEven, true⟩

/-- The text of a number. -/
def numberText (x : Scalar) : List Char :=
  if x.isFinite then numberNotation.text x else ['n', 'u', 'l', 'l']

/-- The text of a truth value. -/
def boolText (b : Bool) : List Char :=
  if b then ['t', 'r', 'u', 'e'] else ['f', 'a', 'l', 's', 'e']

/-- A character of a string. -/
def charText (c : Char) : List Char :=
  match c with
  | '"' => ['\\', '"']
  | '\\' => ['\\', '\\']
  | '\x08' => ['\\', 'b']
  | '\x0c' => ['\\', 'f']
  | '\n' => ['\\', 'n']
  | '\r' => ['\\', 'r']
  | '\t' => ['\\', 't']
  | _ =>
    if c.toNat < 0x20 then
      ['\\', 'u', '0', '0', Nat.digitChar (c.toNat / 16), Nat.digitChar (c.toNat % 16)]
    else [c]

/-- The text of a string. -/
def stringText (s : List Char) : List Char := '"' :: (s.flatMap charText ++ ['"'])

/-- Texts with commas between them. -/
def joinTexts : List (List Char) → List Char
  | [] => []
  | [t] => t
  | t :: ts => t ++ ',' :: joinTexts ts

/-- The text of an array. -/
def arrayText (items : List (List Char)) : List Char := '[' :: (joinTexts items ++ [']'])

/-- The text of a member. -/
def memberText (m : String × List Char) : List Char := stringText m.1.toList ++ ':' :: m.2

/-- The text of an object. -/
def objectText (members : List (String × List Char)) : List Char :=
  '\x7b' :: (joinTexts (members.map memberText) ++ ['\x7d'])

end Json

end VectorIcon

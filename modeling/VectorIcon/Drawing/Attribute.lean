/-
  VectorIcon.Drawing.Attribute
  ────────────────────────────────
  **ATTRIBUTE VALUES OF MARKUP.**

  A number is a decimal numeral, with white space around it and an optional
  unit `px`; infinities and numerals out of range are refused.  An opacity may
  be a percentage.  A list of numbers is separated by white space and commas.
-/
import VectorIcon.Error
import VectorIcon.Number.Library
import VectorIcon.Text.Blank
import VectorIcon.Text.Range
import VectorIcon.Xml.Document

namespace VectorIcon

namespace Attribute

/-! ## §1. Numbers. -/

/-- The text without `suffix` at its end, none if it does not end so. -/
def dropSuffix? (suffix text : List Char) : Option (List Char) :=
  (suffix.reverse.isPrefixOf? text.reverse).map List.reverse

/-- The text without the unit. -/
def dropUnit (text : List Char) : List Char :=
  Text.trimEnd ((dropSuffix? ['p', 'x'] text).getD text)

/-- The finite number which is written as a text and nothing else. -/
def finite? (text : List Char) : Option Scalar :=
  ((Decimal.parse? text).map Decimal.toScalar).filter Scalar.isFinite

/-- The error of a value which can not be read. -/
def invalid (name : String) (value : List Char) : Error := .markup (.invalidAttribute name value)

/-- The number of a value. -/
def scalar (name : String) (value : List Char) : Except Error Scalar :=
  let text := Text.trim value
  match finite? (dropUnit text) with
  | some x => .ok x
  | none => .error (invalid name text)

/-- The number of a value as a library reads it, which is given all of the text but
    the unit. -/
def scalarBy (library : NumberLibrary) (name : String) (value : List Char) : Except Error Scalar :=
  let text := Text.trim value
  match library (Text.bytes (dropUnit text)) with
  | some x => if x.isFinite then .ok x else .error (invalid name text)
  | none => .error (invalid name text)

/-- The opacity of a value, a number or a percentage. -/
def opacity (name : String) (value : List Char) : Except Error Scalar :=
  match dropSuffix? ['%'] (Text.trim value) with
  | some percent => do return (← scalar name percent) / 100.0
  | none => scalar name value

/-! ## §2. Lists. -/

/-- Whether a character separates the numbers of a list. -/
def isSeparator (c : Char) : Bool := Text.isBlank c || c == ','

/-- The words between separators. -/
def words (text : List Char) : List (List Char) :=
  (text.splitOnP isSeparator).filter (! ·.isEmpty)

/-- The numbers of a list. -/
def scalars (name : String) (value : List Char) : Except Error (List Scalar) :=
  (words value).mapM (scalar name)

/-- Take a list in pairs, none if one number is left over. -/
def pairs? : List Scalar → Option (List Point)
  | [] => some []
  | [_] => none
  | x :: y :: r => (pairs? r).map (⟨x, y⟩ :: ·)

/-- The points of a list. -/
def points (name : String) (value : List Char) : Except Error (List Point) := do
  match pairs? (← scalars name value) with
  | some ps => return ps
  | none => throw (invalid name value)

/-- The view box of a list, which has exactly four numbers. -/
def viewBox (name : String) (value : List Char) : Except Error ViewBox := do
  match ← scalars name value with
  | [minX, minY, width, height] => return ⟨minX, minY, width, height⟩
  | _ => throw (invalid name value)

/-! ## §3. Attributes of an element. -/

/-- Read the value of an attribute, none if the element does not have it. -/
def optional {α : Type} (attributes : List Xml.Attribute) (name : String)
    (read : String → List Char → Except Error α) : Except Error (Option α) :=
  match Xml.attribute? attributes name with
  | some value => do return some (← read name value)
  | none => .ok none

/-- The value of an attribute, empty if the element does not have it. -/
def textOf (attributes : List Xml.Attribute) (name : String) : List Char :=
  (Xml.attribute? attributes name).getD []

/-- The number of an attribute, zero if the element does not have it. -/
def scalarOf (attributes : List Xml.Attribute) (name : String) : Except Error Scalar := do
  return (← optional attributes name scalar).getD 0.0

end Attribute

end VectorIcon

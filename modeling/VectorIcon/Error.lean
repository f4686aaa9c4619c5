/-
  VectorIcon.Error
  ────────────────────────────────
  **WHY A CONVERSION FAILS.**

  The causes of failure, their wording, and what they are to a caller who only
  knows failures of input and output.  Whether a document is well formed and
  whether a text is JSON is decided elsewhere; here such a failure has no further
  detail.
-/
import VectorIcon.Json.Value
import VectorIcon.Path.Parser
import VectorIcon.Text.Quoted
import VectorIcon.Text.Utf8

namespace VectorIcon

/-! ## §1. Causes. -/

/-- What is wrong with a document. -/
inductive MarkupFault where
  | notWellFormed
  | notUtf8 (fault : Text.Utf8Fault)
  | invalidAttribute (name : String) (value : List Char)
  | emptyViewBox (viewBox : ViewBox)
  | invalidColor (text : List Char)
deriving Inhabited

/-- Why a conversion fails. -/
inductive Error where
  | fileNotFound
  | markup (fault : MarkupFault)
  | unsupportedElement (name : String)
  | emptyDrawing
  | malformedPath (error : Path.Error)
  | json (fault : Json.Fault)
deriving Inhabited

/-- A failure of input and output. -/
inductive IoError where
  | notFound
  /-- What was read can not be converted. -/
  | invalidData (error : Error)
deriving Inhabited

/-- A failure on which an error rests. -/
inductive ErrorSource where
  | file (error : IoError)
  | json (fault : Json.Fault)
deriving Inhabited

/-! ## §2. Wording. -/

namespace ViewBox

/-- Positional from `0.0001` to below `1e16`; of two equally near decimals the
    greater one is written. -/
def messageNotation : DecimalNotation where
  leastPositional := -4
  greatestPositional := 15
  pointBeforeExponent := false
  plusInExponent := false
  preference := ⟨.up, true⟩

/-- A named number. -/
def fieldText (name : String) (x : Scalar) : List Char :=
  name.toList ++ ':' :: ' ' :: messageNotation.text x

/-- The view box with its fields named. -/
def text (v : ViewBox) : List Char :=
  "ViewBox \x7b ".toList ++ fieldText "min_x" v.minX ++ [',', ' '] ++ fieldText "min_y" v.minY ++
    [',', ' '] ++ fieldText "width" v.width ++ [',', ' '] ++ fieldText "height" v.height ++
    " \x7d".toList

end ViewBox

namespace MarkupFault

/-- The wording of the cause. -/
def message : MarkupFault → String
  | .notWellFormed => "the document is not well formed"
  | .notUtf8 fault => "document is not UTF-8: " ++ fault.message
  | .invalidAttribute name value =>
    s!"invalid value of the attribute {name}: " ++ String.ofList (Text.quoted value)
  | .emptyViewBox viewBox => "view box must have positive size: " ++ String.ofList viewBox.text
  | .invalidColor text => "invalid color: " ++ String.ofList (Text.quoted text)

end MarkupFault

namespace Path

/-- The wording of the error with its place. -/
def Error.message (e : Error) : String :=
  s!"malformed path data at offset {e.offset}: {e.cause.message} (near " ++
    String.ofList (Text.quoted e.fragment.toList) ++ ")"

end Path

/-- The wording of a file which is not there. -/
def missingFileText : String := "No such file or directory (os error 2)"

namespace Error

/-- The wording of the error. -/
def message : Error → String
  | .fileNotFound => "failed to read input: " ++ missingFileText
  | .markup fault => "malformed SVG document: " ++ fault.message
  | .unsupportedElement name => s!"unsupported SVG element: <{name}>"
  | .emptyDrawing => "no path or shape found in the SVG document"
  | .malformedPath error => error.message
  | .json _ => "malformed converter options"

end Error

/-- The wording of the failure. -/
def IoError.message : IoError → String
  | .notFound => missingFileText
  | .invalidData error => error.message

/-! ## §3. Failures of input and output. -/

namespace Error

/-- The failure on which the error rests, if there is one. -/
def source? : Error → Option ErrorSource
  | .fileNotFound => some (.file .notFound)
  | .json fault => some (.json fault)
  | .markup _ | .unsupportedElement _ | .emptyDrawing | .malformedPath _ => none

/-- The error as a failure of input and output: a file which can not be read is
    that failure itself, and any other error says that the data are invalid. -/
def toIoError : Error → IoError
  | .fileNotFound => .notFound
  | error => .invalidData error

end Error

end VectorIcon

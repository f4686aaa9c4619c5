/-
  VectorIcon.Conversion.Basic
  ────────────────────────────────
  **FROM DOCUMENTS TO ICONS.**

  A conversion reads the bytes of a document as UTF-8, draws what the options do
  not exclude and encodes the drawing.
-/
import VectorIcon.Conversion.Options
import VectorIcon.Drawing.Markup

namespace VectorIcon

/-- The text of a document. -/
def documentText (bytes : List UInt8) : Except Error (List Char) :=
  match Text.Utf8.decode bytes with
  | .ok text => .ok text
  | .error fault => .error (.markup (.notUtf8 fault))

namespace ConversionOptions

/-- The drawing of a document without what the options exclude. -/
def draw (o : ConversionOptions) (text : List Char) : Except Error Drawing :=
  Drawing.parse o.exclusions.excludes text

/-- The icon of a drawing. -/
def encode (o : ConversionOptions) (d : Drawing) : Except Error (List UInt8) := o.encoder.encode d

/-- The icon of a document. -/
def convert (o : ConversionOptions) (bytes : List UInt8) : Except Error (List UInt8) := do
  let text ← documentText bytes
  let drawing ← o.draw text
  o.encode drawing

/-- The icon of a document in a file; no bytes if there is no such file. -/
def convertFile (o : ConversionOptions) (content : Option (List UInt8)) :
    Except Error (List UInt8) :=
  match content with
  | some bytes => o.convert bytes
  | none => .error .fileNotFound

end ConversionOptions

end VectorIcon

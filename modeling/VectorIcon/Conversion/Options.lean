/-
  VectorIcon.Conversion.Options
  ────────────────────────────────
  **OPTIONS OF A CONVERSION.**

  How large the icon is, which elements are left out, and the color of opaque
  paint.  As JSON:

      {"output_size":48.0,"exclusions":[{"rule":"fill_none"}],"foreground":"#000000"}

  Absent fields have their defaults.
-/
import VectorIcon.Color
import VectorIcon.Exclusion.Json
import VectorIcon.Icon.Encoder

namespace VectorIcon

open Json (Fault Source)

/-- The options of a conversion. -/
structure ConversionOptions where
  /-- Side of the square into which the view box is fitted. -/
  outputSize : Scalar
  /-- Elements which are left out. -/
  exclusions : Exclusions
  /-- The color of opaque paint. -/
  foreground : Rgba
deriving BEq, Inhabited

namespace ConversionOptions

/-- The size of icons unless told otherwise. -/
def defaultOutputSize : Scalar := 48.0

/-- The options unless told otherwise. -/
def default : ConversionOptions := ⟨defaultOutputSize, .default, .black⟩

/-- The encoder which the options ask for. -/
def encoder (o : ConversionOptions) : Icon.Encoder := ⟨o.outputSize, o.foreground⟩

/-- The encoder of the default options. -/
def defaultEncoder : Icon.Encoder := default.encoder

/-- Other options with the given size. -/
def withOutputSize (o : ConversionOptions) (size : Scalar) : ConversionOptions :=
  { o with outputSize := size }

/-- Other options with the given color. -/
def withForeground (o : ConversionOptions) (color : Rgba) : ConversionOptions :=
  { o with foreground := color }

/-- Leave out exactly the given elements. -/
def replaceExcluded (o : ConversionOptions) (es : List Element) : ConversionOptions :=
  { o with exclusions := o.exclusions.replace es }

/-- Leave out the given elements too. -/
def addExcluded (o : ConversionOptions) (es : List Element) : ConversionOptions :=
  { o with exclusions := o.exclusions.extendExact es }

/-! ## §1. Writing. -/

/-- The text of the options. -/
def jsonText (o : ConversionOptions) : List Char :=
  Json.objectText [("output_size", Json.numberText o.outputSize),
    ("exclusions", o.exclusions.jsonText), ("foreground", Json.stringText o.foreground.text)]

/-! ## §2. Reading. -/

/-- A color is a string. -/
def colorOfSource (v : Source) : Except Fault Rgba := do
  match Rgba.parse? (← v.text) with
  | some c => return c
  | none => throw .mismatch

/-- The fields which are read so far. -/
structure Draft where
  outputSize : Option Scalar
  exclusions : Option Exclusions
  foreground : Option Rgba

/-- Take in a member. -/
def member (depth : Nat) (d : Draft) (name : List Char) (v : Source) : Except Fault Draft :=
  if name = "output_size".toList then
    return { d with outputSize := ← Source.setOnce d.outputSize Source.scalar v }
  else if name = "exclusions".toList then
    return { d with exclusions := ← Source.setOnce d.exclusions (Exclusions.ofSource depth) v }
  else if name = "foreground".toList then
    return { d with foreground := ← Source.setOnce d.foreground colorOfSource v }
  else do
    v.skip
    return d

/-- The options with defaults for what is not there. -/
def ofDraft (d : Draft) : ConversionOptions :=
  ⟨d.outputSize.getD default.outputSize, d.exclusions.getD default.exclusions,
    d.foreground.getD default.foreground⟩

/-- The options of a source. -/
def ofSource (depth : Nat) : Source → Except Fault ConversionOptions
  | .object members fault => do
    return ofDraft (← Source.foldMembers (member (depth - 1)) ⟨none, none, none⟩ members fault)
  | .array items fault => do
    let (outputSize, items) ← Source.nextField Source.scalar items fault
    let (exclusions, items) ← Source.nextField (Exclusions.ofSource (depth - 1)) items fault
    let (foreground, items) ← Source.nextField colorOfSource items fault
    Source.endFields items fault
    return ofDraft ⟨outputSize, exclusions, foreground⟩
  | v => throw v.mismatchFault

/-- The options of a text. -/
def ofJson (text : List Char) : Except Fault ConversionOptions :=
  Json.decode (ofSource Json.depthLimit) text

end ConversionOptions

end VectorIcon

/-
  VectorIcon.Icon.Decoder
  ────────────────────────────────
  **FROM ICONS TO WHAT THEY SHOW.**

  The content of an icon: its view box, its palette, the register settings and
  the painted paths, each list in the order of the bytes.  Settings and paths do
  not depend on each other, which register holds what is not simulated here.
-/
import VectorIcon.Icon.Reader
import VectorIcon.Icon.Plot
import VectorIcon.Text.Hexadecimal

namespace VectorIcon

namespace Icon

/-- A painted path. -/
structure PaintedPath where
  /-- The adjustment, which names the register it is painted with. -/
  adjustment : UInt8
  strokes : List Stroke
deriving BEq, Inhabited

namespace PaintedPath

/-- The letters of the strokes. -/
def letters (p : PaintedPath) : List Char := p.strokes.map (·.letter)

/-- The segments of the strokes. -/
def segments (p : PaintedPath) : List Segment := p.strokes.map (·.segment)

end PaintedPath

/-- The strokes of an outline: a move to its start, then its instructions. -/
def Outline.strokes (o : Outline) : List Stroke :=
  ⟨'M', .move o.start⟩ :: (Plotter.startingAt o.start).run o.body

/-- A register setting. -/
structure RegisterSetting where
  adjustment : UInt8
  weight : UInt8
  first : UInt8
  second : UInt8
deriving DecidableEq, Repr, Inhabited

/-- What an icon shows. -/
structure Content where
  viewBox : Bounds
  palette : List (List UInt8)
  registers : List RegisterSetting
  paths : List PaintedPath
deriving BEq, Inhabited

namespace Content

/-- The last view box of the metadata, the default one if there is none. -/
def viewBoxOf (ms : List Metadata) : Bounds :=
  ms.foldl (fun b m => match m with | .viewBox b => b | .palette _ => b) .default

/-- The entries of all palettes of the metadata. -/
def paletteOf (ms : List Metadata) : List (List UInt8) :=
  ms.flatMap fun m => match m with | .palette entries => entries | .viewBox _ => []

/-- The register settings among the items. -/
def registersOf (is : List Item) : List RegisterSetting :=
  is.filterMap fun i => match i with
    | .register a w f s => some ⟨a, w, f, s⟩
    | .path _ _ => none

/-- The paths among the items. -/
def pathsOf (is : List Item) : List PaintedPath :=
  is.filterMap fun i => match i with
    | .path a o => some ⟨a, o.strokes⟩
    | .register _ _ _ _ => none

/-- What the parts of an icon show. -/
def ofParts (p : Parts) : Content :=
  ⟨viewBoxOf p.metadata, paletteOf p.metadata, registersOf p.items, pathsOf p.items⟩

end Content

/-! ## Errors with their place. -/

/-- Why bytes are not an icon, and the offset of the problem. -/
structure DecodeError where
  cause : DecodeCause
  offset : Nat
deriving DecidableEq, Repr, Inhabited

namespace DecodeError

/-- The wording of the error. -/
def message (e : DecodeError) : String :=
  match e.cause with
  | .endOfData => s!"unexpected end of data at {e.offset}"
  | .invalidMagic => "invalid magic"
  | .unsupportedMetadata kind => s!"unsupported metadata {kind.toNat}"
  | .chunkLength => s!"metadata chunk length mismatch at {e.offset}"
  | .unsupportedDrawing opcode =>
    "unsupported drawing opcode 0x" ++ String.ofList (Text.byteText opcode)
  | .unsupportedStyling opcode =>
    "unsupported styling opcode 0x" ++ String.ofList (Text.byteText opcode)

end DecodeError

/-- The content of an icon. -/
def decode (data : List UInt8) : Except DecodeError Content :=
  match readParts data with
  | .ok parts => .ok (Content.ofParts parts)
  | .error f => .error ⟨f.cause, data.length - f.rest.length⟩

end Icon

end VectorIcon

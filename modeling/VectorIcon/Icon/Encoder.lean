/-
  VectorIcon.Icon.Encoder
  ────────────────────────────────
  **FROM DRAWINGS TO ICONS.**

  An icon is a header and the groups of its paths.  The header has the magic
  bytes and up to two metadata chunks: the view box unless it is the default one,
  and a palette with the foreground unless that is opaque black.  The group of a
  path sets a register if its opacity needs one and then draws the outline.
  Paths without commands have no group; a drawing without groups has no icon.
-/
import VectorIcon.Drawing.Basic
import VectorIcon.Error
import VectorIcon.Icon.Pen
import VectorIcon.Icon.Register

namespace VectorIcon

namespace Icon

/-! ## §1. The header. -/

/-- The first bytes of every icon. -/
def magic : List UInt8 := [0x89, 0x49, 0x56, 0x47]

/-- Half the side of the view box of an icon which does not tell it. -/
def defaultHalfSize : Scalar := 32.0

/-- A metadata chunk: its length, its kind and its data. -/
def chunk (kind : UInt32) (data : List UInt8) : List UInt8 :=
  let body := naturalBytes kind ++ data
  naturalBytes (UInt32.ofNat body.length) ++ body

/-- The chunk kind of a view box. -/
def viewBoxKind : UInt32 := 0

/-- The chunk kind of a suggested palette. -/
def paletteKind : UInt32 := 1

/-- What an encoder needs to know besides the drawing. -/
structure Encoder where
  /-- Side of the square into which the view box is fitted. -/
  outputSize : Scalar
  /-- The color of opaque paint. -/
  foreground : Rgba
deriving BEq, Inhabited

namespace Encoder

/-- The view box as a chunk. -/
def viewBoxChunk (e : Encoder) : List UInt8 :=
  let half := e.outputSize / 2.0
  chunk viewBoxKind ([-half, -half, half, half].flatMap coordinateBytes)

/-- The palette as a chunk; it has one entry. -/
def paletteChunk (e : Encoder) : List UInt8 :=
  let color := DirectColor.ofRgba e.foreground
  chunk paletteKind (color.form <<< 6 :: color.bytes)

/-- The chunks of the header. -/
def chunks (e : Encoder) : List (List UInt8) :=
  (if e.outputSize / 2.0 != defaultHalfSize then [e.viewBoxChunk] else []) ++
    (if e.foreground ≠ .black then [e.paletteChunk] else [])

/-- The bytes before the first group. -/
def header (e : Encoder) : List UInt8 :=
  magic ++ naturalBytes (UInt32.ofNat e.chunks.length) ++ e.chunks.flatten

/-! ## §2. Groups. -/

/-- The groups of the paths which have commands, in order, or the error of the
    first malformed path. -/
def groups (t : Transform) (r : Registers) : List PathElement → Except Path.Error (List (List UInt8))
  | [] => .ok []
  | p :: ps => do
    let commands ← Path.parse p.data
    match Outline.ofCommands? t commands with
    | none => groups t r ps
    | some outline =>
      let (adjustment, set, r) := r.select (opacityWeight p.paint.alpha)
      let rest ← groups t r ps
      return (set ++ outline.bytes adjustment) :: rest

/-- The icon of a drawing. -/
def encode (e : Encoder) (d : Drawing) : Except Error (List UInt8) :=
  match groups (Transform.fit d.canvas.viewBox e.outputSize) .empty d.paths with
  | .error error => .error (.malformedPath error)
  | .ok [] => .error .emptyDrawing
  | .ok gs => .ok (e.header ++ gs.flatten)

end Encoder

end Icon

end VectorIcon

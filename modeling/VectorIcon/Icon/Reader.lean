/-
  VectorIcon.Icon.Reader
  ────────────────────────────────
  **FROM BYTES TO THE PARTS OF AN ICON.**

  An icon is read in two steps.  Here its bytes become typed parts: metadata
  chunks, register settings and outlines of instructions.  What the instructions
  draw is decided afterwards (`VectorIcon.Icon.Plot`), it can not fail.

  The first problem in the order of the bytes is reported; a problem keeps the
  bytes which remained, its offset is the number of those before them.
-/
import VectorIcon.Icon.Pen

namespace VectorIcon

namespace Icon

/-! ## §1. Problems. -/

/-- Why bytes are not an icon. -/
inductive DecodeCause where
  | endOfData
  | invalidMagic
  | unsupportedMetadata (kind : UInt32)
  | chunkLength
  | unsupportedDrawing (opcode : UInt8)
  | unsupportedStyling (opcode : UInt8)
deriving DecidableEq, Repr, Inhabited

/-- A cause and the bytes which remained. -/
structure DecodeFault where
  cause : DecodeCause
  rest : List UInt8
deriving DecidableEq, Repr, Inhabited

/-- Reads bytes. -/
abbrev Reading (α : Type) := Scan UInt8 DecodeFault α

/-! ## §2. Bytes and numbers. -/

/-- Split off a number of items, none if there are not as many. -/
def splitExactly? {α : Type} : Nat → List α → Option (List α × List α)
  | 0, s => some ([], s)
  | _ + 1, [] => none
  | n + 1, a :: s => (splitExactly? n s).map fun r => (a :: r.1, r.2)

/-- Read a number of bytes. -/
def bytes (n : Nat) : Reading (List UInt8) := fun s =>
  match splitExactly? n s with
  | some r => .ok r
  | none => .error ⟨.endOfData, s⟩

/-- Read one byte. -/
def byte : Reading UInt8 := fun s =>
  match s with
  | b :: t => .ok (b, t)
  | [] => .error ⟨.endOfData, s⟩

/-- The word of two bytes. -/
def joinTwo (a b : UInt8) : UInt16 := a.toUInt16 ||| b.toUInt16 <<< 8

/-- The word of four bytes. -/
def joinFour (a b c d : UInt8) : UInt32 :=
  a.toUInt32 ||| b.toUInt32 <<< 8 ||| c.toUInt32 <<< 16 ||| d.toUInt32 <<< 24

/-- Read a number in the width which its first byte tells. -/
def word : Reading Word := fun s =>
  match s with
  | [] => .error ⟨.endOfData, s⟩
  | a :: t =>
    if a.toNat % 2 = 0 then .ok (.one a, t)
    else if a.toNat % 4 = 1 then
      match t with
      | b :: t => .ok (.two (joinTwo a b), t)
      | _ => .error ⟨.endOfData, s⟩
    else
      match t with
      | b :: c :: d :: t => .ok (.four (joinFour a b c d), t)
      | _ => .error ⟨.endOfData, s⟩

/-- Read a natural. -/
def natural : Reading UInt32 := return (← word).natural

/-- Read a coordinate. -/
def coordinate : Reading Scalar := return (← word).coordinate

/-- Read a zero-to-one number. -/
def zeroToOne : Reading Scalar := return (← word).zeroToOne

/-- Read a point. -/
def point : Reading Point := do
  let x ← coordinate
  let y ← coordinate
  return ⟨x, y⟩

/-! ## §3. Instructions. -/

/-- Relative if the bit is set. -/
def frameOf (relative : Bool) : Frame := if relative then .relative else .absolute

/-- Read the operands of an arc. -/
def arcOperands (frame : Frame) : Reading Instruction := do
  let radii ← point
  let rotation ← zeroToOne
  let flags ← natural
  let target ← point
  return .arc frame radii rotation (flags.toNat % 2 = 1) (flags.toNat / 2 % 2 = 1) target

/-- The length of the run which an opcode byte begins, and how the operands of
    each of its instructions are read. -/
def operands? (opcode : UInt8) : Option (Nat × Reading Instruction) :=
  let n := opcode.toNat
  if n < 0x40 then
    let f := frameOf (0x20 ≤ n)
    some (n % 32 + 1, return .line f (← point))
  else if n < 0xe0 then
    let f := frameOf (n / 16 % 2 = 1)
    some (n % 16 + 1,
      match n / 32 with
      | 2 => return .smoothQuad f (← point)
      | 3 => return .quad f (← point) (← point)
      | 4 => return .smoothCubic f (← point) (← point)
      | 5 => return .cubic f (← point) (← point) (← point)
      | _ => arcOperands f)
  else match n with
    | 0xe1 => some (1, return .endPath)
    | 0xe2 => some (1, return .closeMove .absolute (← point))
    | 0xe3 => some (1, return .closeMove .relative (← point))
    | 0xe6 => some (1, return .horizontal .absolute (← coordinate))
    | 0xe7 => some (1, return .horizontal .relative (← coordinate))
    | 0xe8 => some (1, return .vertical .absolute (← coordinate))
    | 0xe9 => some (1, return .vertical .relative (← coordinate))
    | _ => none

/-- Read the operands of all instructions of a run. -/
def runOperands (opcode : UInt8) : Reading (List Instruction) :=
  match operands? opcode with
  | some (count, p) => p.times count
  | none => fun s => .error ⟨.unsupportedDrawing opcode, s⟩

/-- Read a run. -/
def run : Reading (List Instruction) := do
  let opcode ← byte
  runOperands opcode

/-- Whether the last instruction ends the path. -/
def endsPath (is : List Instruction) : Bool :=
  match is with
  | [.endPath] => true
  | _ => false

/-! ## §4. Progress. -/

theorem byte_takes : Scan.Takes byte := by
  intro s a t h
  unfold byte at h
  split at h
  · cases h; simp
  · cases h

theorem word_takes : Scan.Takes word := by
  intro s a t h
  unfold word at h
  split at h
  · cases h
  · split at h
    · cases h; simp
    · split at h
      · split at h
        · cases h; simp only [List.length_cons]; omega
        · cases h
      · split at h
        · cases h; simp only [List.length_cons]; omega
        · cases h

theorem natural_keeps : Scan.Keeps natural :=
  (word_takes.bind fun _ => Scan.keeps_pure _).keeps

theorem coordinate_keeps : Scan.Keeps coordinate :=
  (word_takes.bind fun _ => Scan.keeps_pure _).keeps

theorem zeroToOne_keeps : Scan.Keeps zeroToOne :=
  (word_takes.bind fun _ => Scan.keeps_pure _).keeps

theorem point_keeps : Scan.Keeps point :=
  coordinate_keeps.bind fun _ => coordinate_keeps.bind fun _ => Scan.keeps_pure _

theorem arcOperands_keeps (frame : Frame) : Scan.Keeps (arcOperands frame) :=
  point_keeps.bind fun _ => zeroToOne_keeps.bind fun _ => natural_keeps.bind fun _ =>
    point_keeps.bind fun _ => Scan.keeps_pure _

theorem operands?_keeps {opcode : UInt8} {count : Nat} {p : Reading Instruction}
    (h : operands? opcode = some (count, p)) : Scan.Keeps p := by
  have one (f : Point → Instruction) : Scan.Keeps (do return f (← point) : Reading Instruction) :=
    point_keeps.bind fun _ => Scan.keeps_pure _
  have axis (f : Scalar → Instruction) :
      Scan.Keeps (do return f (← coordinate) : Reading Instruction) :=
    coordinate_keeps.bind fun _ => Scan.keeps_pure _
  unfold operands? at h
  simp only at h
  split at h
  · cases h; exact one _
  · split at h
    · cases h
      split
      · exact one _
      · exact point_keeps.bind fun _ => one _
      · exact point_keeps.bind fun _ => one _
      · exact point_keeps.bind fun _ => point_keeps.bind fun _ => one _
      · exact arcOperands_keeps _
    · split at h <;> cases h
      · exact Scan.keeps_pure _
      · exact one _
      · exact one _
      · exact axis _
      · exact axis _
      · exact axis _
      · exact axis _

theorem runOperands_keeps (opcode : UInt8) : Scan.Keeps (runOperands opcode) := by
  unfold runOperands
  split
  · next hp => exact Scan.keeps_times (operands?_keeps hp) _
  · intro s a t h
    cases h

theorem run_takes : Scan.Takes run := byte_takes.bind runOperands_keeps

/-! ## §5. Outlines and styling. -/

/-- Read the instructions of a path, the one which ends it included. -/
def body : Reading (List Instruction) := fun s =>
  match Scan.through run run_takes endsPath s with
  | .ok (runs, t) => .ok (runs.flatten, t)
  | .error f => .error f

/-- Read an outline. -/
def outline : Reading Outline := do
  let start ← point
  let body ← body
  return ⟨start, body⟩

/-- What follows the header of an icon. -/
inductive Item where
  /-- A register is set to a blend. -/
  | register (adjustment : UInt8) (weight first second : UInt8)
  /-- A path is painted with a register. -/
  | path (adjustment : UInt8) (outline : Outline)

/-- Read the rest of an item after its opcode. -/
def itemOf (opcode : UInt8) : Reading Item :=
  let adjustment := opcode &&& 7
  if 0xa0 ≤ opcode ∧ opcode ≤ 0xa6 then fun s =>
    match s with
    | a :: b :: c :: t => .ok (.register adjustment a b c, t)
    | _ => .error ⟨.endOfData, s⟩
  else if 0xc0 ≤ opcode ∧ opcode ≤ 0xc6 then return .path adjustment (← outline)
  else fun s => .error ⟨.unsupportedStyling opcode, s⟩

/-- Read an item. -/
def item : Reading Item := do
  let opcode ← byte
  itemOf opcode

theorem body_keeps : Scan.Keeps body := by
  intro s a t h
  unfold body at h
  split at h
  · next runs u hr =>
    cases h
    exact Nat.le_of_lt (Scan.through_takes run_takes endsPath s runs t hr)
  · cases h

theorem outline_keeps : Scan.Keeps outline :=
  point_keeps.bind fun _ => body_keeps.bind fun _ => Scan.keeps_pure _

theorem itemOf_keeps (opcode : UInt8) : Scan.Keeps (itemOf opcode) := by
  unfold itemOf
  simp only
  split
  · intro s a t h
    simp only at h
    split at h
    · cases h; simp only [List.length_cons]; omega
    · cases h
  · split
    · exact outline_keeps.bind fun _ => Scan.keeps_pure _
    · intro s a t h
      cases h

theorem item_takes : Scan.Takes item := byte_takes.bind itemOf_keeps

/-! ## §6. Metadata. -/

/-- A rectangle by its least and greatest coordinates. -/
structure Bounds where
  minX : Scalar
  minY : Scalar
  maxX : Scalar
  maxY : Scalar
deriving BEq, Inhabited

/-- The view box of an icon which does not tell it. -/
def Bounds.default : Bounds := ⟨-32.0, -32.0, 32.0, 32.0⟩

/-- A metadata chunk. -/
inductive Metadata where
  | viewBox (bounds : Bounds)
  | palette (entries : List (List UInt8))

/-- Read the data of a chunk of the given kind. -/
def metadataOf (kind : UInt32) : Reading Metadata :=
  if kind = 0 then do
    let minX ← coordinate
    let minY ← coordinate
    let maxX ← coordinate
    let maxY ← coordinate
    return .viewBox ⟨minX, minY, maxX, maxY⟩
  else if kind = 1 then do
    let layout ← byte
    return .palette (← (bytes (layout.toNat / 64 + 1)).times (layout.toNat % 64 + 1))
  else fun s => .error ⟨.unsupportedMetadata kind, s⟩

/-- Read a chunk, which takes as many bytes as it says. -/
def metadata : Reading Metadata := do
  let length ← natural
  fun s =>
    match (do metadataOf (← natural) : Reading Metadata) s with
    | .error f => .error f
    | .ok (m, t) =>
      if s.length = t.length + length.toNat then .ok (m, t) else .error ⟨.chunkLength, t⟩

/-- Read the magic bytes. -/
def magicBytes : Reading Unit := do
  let found ← bytes 4
  if found = [0x89, 0x49, 0x56, 0x47] then return ()
  else fun s => .error ⟨.invalidMagic, s⟩

/-- Read the header. -/
def header : Reading (List Metadata) := do
  magicBytes
  let count ← natural
  metadata.times count.toNat

/-- The parts of an icon. -/
structure Parts where
  metadata : List Metadata
  items : List Item

/-- Read all bytes of an icon. -/
def readParts (data : List UInt8) : Except DecodeFault Parts :=
  match header data with
  | .error f => .error f
  | .ok (metadata, rest) =>
    match Scan.toEnd item item_takes rest with
    | .error f => .error f
    | .ok items => .ok ⟨metadata, items⟩

end Icon

end VectorIcon

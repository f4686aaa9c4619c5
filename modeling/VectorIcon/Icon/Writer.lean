/-
  VectorIcon.Icon.Writer
  ────────────────────────────────
  **WRITING ALL PATHS INTO ONE BUFFER.**

  A writer appends the instructions of a path to a buffer which already holds
  whatever was written before.  It knows the run which is still open by the index
  of its opcode byte: an instruction which joins the run overwrites that byte by
  the next one and appends nothing but its operands.  Overwriting fails if there
  is no byte at the index.
-/
import VectorIcon.Icon.Buffer
import VectorIcon.Icon.Encoder

namespace VectorIcon

namespace Icon

/-- A run which the next instruction may join. -/
structure OpenRun where
  /-- The opcode of a run of one. -/
  opcode : UInt8
  /-- Where the opcode byte of the run is. -/
  index : Nat
  /-- How many instructions it has. -/
  count : Nat

/-- The state between two instructions. -/
structure Writer where
  buffer : Buffer
  pen : Pen
  run : Option OpenRun

namespace Writer

/-- Begin a run.  No instruction joins a run which has room for one only. -/
def begin (w : Writer) (i : Instruction) : Writer where
  buffer := (w.buffer.push i.opcode).append i.operandBytes
  pen := w.pen
  run := if i.capacity = 1 then none else some ⟨i.opcode, w.buffer.size, 1⟩

/-- Join an open run. -/
def join? (w : Writer) (r : OpenRun) (i : Instruction) : Option Writer := do
  let buffer ← w.buffer.set? r.index (i.opcode + UInt8.ofNat r.count)
  return ⟨buffer.append i.operandBytes, w.pen, some { r with count := r.count + 1 }⟩

/-- Write an instruction into the open run if it has the same opcode and there is
    room, into a run of its own otherwise. -/
def put? (w : Writer) (i : Instruction) : Option Writer :=
  match w.run with
  | some r => if r.opcode = i.opcode ∧ r.count < i.capacity then w.join? r i else some (w.begin i)
  | none => some (w.begin i)

/-- Write what the pen draws of a command. -/
def command? (t : Transform) (w : Writer) (c : Command) : Option Writer :=
  (w.pen.step t c).1.foldlM put? { w with pen := (w.pen.step t c).2 }

/-- Write a path after what is in the buffer; nothing if it does not begin with a
    move. -/
def path? (t : Transform) (b : Buffer) (adjustment : UInt8) : List Command → Option Buffer
  | .moveTo _ target :: cs => do
    let start := quantize (t.apply target)
    let b := (b.push (0xc0 ||| adjustment)).append (pointBytes start)
    let w ← cs.foldlM (command? t) ⟨b, .startingAt start, none⟩
    let w ← w.put? .endPath
    return w.buffer
  | _ => some b

/-- Write paths after what is in the buffer, and count those which have
    commands.  The first malformed path ends the writing. -/
def paths? (t : Transform) (r : Registers) (b : Buffer) (count : Nat) :
    List PathElement → Option (Except Path.Error (Nat × Buffer))
  | [] => some (.ok (count, b))
  | p :: ps =>
    match Path.parse p.data with
    | .error f => some (.error f)
    | .ok [] => paths? t r b count ps
    | .ok commands => do
      let (adjustment, set, r) := r.select (opacityWeight p.paint.alpha)
      let b ← path? t (b.append set) adjustment commands
      paths? t r b (count + 1) ps

end Writer

/-- The icon of a drawing, written into one buffer. -/
def Encoder.write? (e : Encoder) (d : Drawing) : Option (Except Error (List UInt8)) := do
  let written ← Writer.paths? (Transform.fit d.canvas.viewBox e.outputSize) .empty ⟨e.header⟩ 0 d.paths
  return match written with
    | .error f => .error (.malformedPath f)
    | .ok (count, b) => if count = 0 then .error .emptyDrawing else .ok b.bytes

end Icon

end VectorIcon

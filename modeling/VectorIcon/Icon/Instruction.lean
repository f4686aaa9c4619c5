/-
  VectorIcon.Icon.Instruction
  ────────────────────────────────
  **THE DRAWING INSTRUCTIONS OF ICONS.**

  Between the start and the end of a path an icon holds instructions in icon
  space.  An instruction has an opcode, which also tells whether the operands
  are absolute, and its operands.  Lines and curves may share an opcode: a run
  of up to `capacity` instructions of the same opcode is written as one opcode
  byte, raised by the length of the run less one, and the operands of all of
  them in order.

      0x00 line       32    0x60 quad          16    0xa0 cubic    16
      0x20 rel.       32    0x70 rel.          16    0xb0 rel.     16
      0x40 smooth q.  16    0x80 smooth cubic  16    0xc0 arc      16
      0x50 rel.       16    0x90 rel.          16    0xd0 rel.     16
      0xe1 end of path      0xe2 0xe3 close and move
      0xe6 0xe7 horizontal line                0xe8 0xe9 vertical line
-/
import VectorIcon.Icon.Number
import VectorIcon.Path.Segment

namespace VectorIcon

namespace Icon

/-! ## §1. Instructions. -/

/-- The flags of an arc as a natural: large in bit 0, sweep in bit 1. -/
def arcFlags (large sweep : Bool) : UInt32 :=
  (if large then 1 else 0) + (if sweep then 2 else 0)

/-- An instruction with its operands. -/
inductive Instruction where
  | line (frame : Frame) (target : Point)
  | smoothQuad (frame : Frame) (target : Point)
  | quad (frame : Frame) (control target : Point)
  | smoothCubic (frame : Frame) (second target : Point)
  | cubic (frame : Frame) (first second target : Point)
  /-- The rotation is a fraction of a turn. -/
  | arc (frame : Frame) (radii : Point) (rotation : Scalar) (large sweep : Bool) (target : Point)
  | horizontal (frame : Frame) (x : Scalar)
  | vertical (frame : Frame) (y : Scalar)
  /-- Close the sub-path and start another one; the start of the closed sub-path
      is the origin of a relative operand. -/
  | closeMove (frame : Frame) (target : Point)
  /-- Close the sub-path and end the path. -/
  | endPath
deriving BEq, Inhabited

namespace Instruction

/-- One of two opcodes by the meaning of the operands. -/
def pick (frame : Frame) (absolute relative : UInt8) : UInt8 :=
  match frame with
  | .absolute => absolute
  | .relative => relative

/-- The opcode of a run of one. -/
def opcode : Instruction → UInt8
  | .line f _ => pick f 0x00 0x20
  | .smoothQuad f _ => pick f 0x40 0x50
  | .quad f _ _ => pick f 0x60 0x70
  | .smoothCubic f _ _ => pick f 0x80 0x90
  | .cubic f _ _ _ => pick f 0xa0 0xb0
  | .arc f _ _ _ _ _ => pick f 0xc0 0xd0
  | .horizontal f _ => pick f 0xe6 0xe7
  | .vertical f _ => pick f 0xe8 0xe9
  | .closeMove f _ => pick f 0xe2 0xe3
  | .endPath => 0xe1

/-- How many instructions a run may have. -/
def capacity : Instruction → Nat
  | .line _ _ => 32
  | .smoothQuad _ _ | .quad _ _ _ | .smoothCubic _ _ _ | .cubic _ _ _ _ | .arc _ _ _ _ _ _ => 16
  | .horizontal _ _ | .vertical _ _ | .closeMove _ _ | .endPath => 1

/-- The bytes of the operands. -/
def operandBytes : Instruction → List UInt8
  | .line _ target | .smoothQuad _ target | .closeMove _ target => pointBytes target
  | .quad _ control target => pointBytes control ++ pointBytes target
  | .smoothCubic _ second target => pointBytes second ++ pointBytes target
  | .cubic _ first second target => pointBytes first ++ pointBytes second ++ pointBytes target
  | .arc _ radii rotation large sweep target =>
    pointBytes radii ++ zeroToOneBytes rotation ++ naturalBytes (arcFlags large sweep) ++
      pointBytes target
  | .horizontal _ v | .vertical _ v => coordinateBytes v
  | .endPath => []

end Instruction

/-! ## §2. Runs. -/

/-- Instructions written under one opcode byte. -/
structure Run where
  head : Instruction
  tail : List Instruction

namespace Run

/-- The number of instructions. -/
def length (r : Run) : Nat := r.tail.length + 1

/-- The opcode byte with the length of the run. -/
def opcode (r : Run) : UInt8 := r.head.opcode + UInt8.ofNat r.tail.length

/-- The instructions of the run. -/
def instructions (r : Run) : List Instruction := r.head :: r.tail

/-- The bytes of the run. -/
def bytes (r : Run) : List UInt8 := r.opcode :: r.instructions.flatMap Instruction.operandBytes

/-- Split off the leading instructions with an opcode, at most `room` of them. -/
def take (opcode : UInt8) : Nat → List Instruction → List Instruction × List Instruction
  | room + 1, i :: is =>
    if i.opcode = opcode then
      let (taken, rest) := take opcode room is
      (i :: taken, rest)
    else ([], i :: is)
  | _, is => ([], is)

/-- Nothing is lost. -/
theorem take_append (opcode : UInt8) (room : Nat) (is : List Instruction) :
    (take opcode room is).1 ++ (take opcode room is).2 = is := by
  fun_induction take opcode room is with
  | case1 room i is h taken rest heq ih => simp only [heq] at ih; simp [ih]
  | case2 => rfl
  | case3 => rfl

/-- No more than `room` instructions are taken. -/
theorem take_length_le (opcode : UInt8) (room : Nat) (is : List Instruction) :
    (take opcode room is).1.length ≤ room := by
  fun_induction take opcode room is with
  | case1 room i is h taken rest heq ih => simp only [heq] at ih; simp; omega
  | case2 => simp
  | case3 => simp

/-- The instructions as runs, each as long as possible. -/
def ofInstructions : List Instruction → List Run
  | [] => []
  | i :: is =>
    let split := take i.opcode (i.capacity - 1) is
    ⟨i, split.1⟩ :: ofInstructions split.2
termination_by is => is.length
decreasing_by
  have h := congrArg List.length (take_append i.opcode (i.capacity - 1) is)
  simp only [List.length_append] at h
  simp only [List.length_cons]
  omega

end Run

/-- The bytes of instructions. -/
def instructionBytes (is : List Instruction) : List UInt8 :=
  (Run.ofInstructions is).flatMap Run.bytes

end Icon

end VectorIcon

/-
  VectorIcon.Icon.Buffer
  ────────────────────────────────
  **A GROWING ROW OF BYTES.**

  The output of a writer which appends bytes and numbers at the end and can
  overwrite a byte that is already there.
-/
import VectorIcon.Icon.Number

namespace VectorIcon

namespace Icon

/-- The bytes written so far. -/
structure Buffer where
  bytes : List UInt8
deriving DecidableEq, Repr, Inhabited

namespace Buffer

/-- Nothing is written. -/
def empty : Buffer := ⟨[]⟩

/-- The number of bytes. -/
def size (b : Buffer) : Nat := b.bytes.length

/-- Whether there is no byte. -/
def isEmpty (b : Buffer) : Bool := b.bytes.isEmpty

/-- Append bytes. -/
def append (b : Buffer) (bytes : List UInt8) : Buffer := ⟨b.bytes ++ bytes⟩

/-- Append one byte. -/
def push (b : Buffer) (byte : UInt8) : Buffer := b.append [byte]

/-- Overwrite the byte at an index, none if there is no such byte. -/
def set? (b : Buffer) (index : Nat) (byte : UInt8) : Option Buffer :=
  if index < b.size then some ⟨b.bytes.set index byte⟩ else none

/-- Append a natural; also the number of bytes it took. -/
def pushNatural (b : Buffer) (n : UInt32) : Nat × Buffer :=
  let w := Word.ofNatural n
  (w.size, b.append w.bytes)

/-- Append a coordinate; also the number of bytes it took. -/
def pushCoordinate (b : Buffer) (x : Scalar) : Nat × Buffer :=
  let w := Word.ofCoordinate x
  (w.size, b.append w.bytes)

/-- Append a zero-to-one number; also the number of bytes it took. -/
def pushZeroToOne (b : Buffer) (x : Scalar) : Nat × Buffer :=
  let w := Word.ofZeroToOne x
  (w.size, b.append w.bytes)

end Buffer

end Icon

end VectorIcon

/-
  VectorIcon.Icon.Register
  ────────────────────────────────
  **REGISTERS FOR TRANSLUCENT PAINT.**

  A path is painted with the register named by its adjustment.  Adjustment 0 is
  the foreground itself; the six others hold the foreground at some opacity
  weight.  A weight which no register holds is stored in a free one, and once
  none is free the registers are overwritten in turn.
-/
import VectorIcon.Icon.Color

namespace VectorIcon

namespace Icon

/-- The number of registers besides the foreground. -/
def registerCount : Nat := 6

/-- The weights held by the registers. -/
structure Registers where
  /-- The weight at index `i` belongs to adjustment `i + 1`. -/
  weights : List UInt8
  /-- Index of the register which is overwritten next. -/
  next : Nat
deriving DecidableEq, Repr, Inhabited

namespace Registers

/-- No register is set. -/
def empty : Registers := ⟨[], 0⟩

/-- The adjustment of an index. -/
def adjustment (index : Nat) : UInt8 := UInt8.ofNat (index + 1)

/-- Set a register to a blend of transparent and the first palette entry. -/
def setBytes (adjustment weight : UInt8) : List UInt8 :=
  [0xa0 ||| adjustment, weight, transparentByte, firstPaletteByte]

/-- The adjustment which paints with a weight, the bytes which set its register
    if that is needed, and the registers afterwards. -/
def select (r : Registers) (weight : UInt8) : UInt8 × List UInt8 × Registers :=
  if weight = 255 then (0, [], r)
  else match r.weights.findIdx? (· = weight) with
    | some index => (adjustment index, [], r)
    | none =>
      if r.weights.length < registerCount then
        let a := adjustment r.weights.length
        (a, setBytes a weight, { r with weights := r.weights ++ [weight] })
      else
        let a := adjustment r.next
        (a, setBytes a weight,
          ⟨r.weights.set r.next weight, (r.next + 1) % registerCount⟩)

end Registers

end Icon

end VectorIcon

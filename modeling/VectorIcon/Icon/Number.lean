/-
  VectorIcon.Icon.Number
  ────────────────────────────────
  **VARIABLE WIDTH NUMBERS OF ICONS.**

  A number takes one, two or four bytes, least significant byte first; the low
  bits of the first byte tell the width:

      xxxxxxx0   1 byte       xxxxxx01   2 bytes       xxxxxx11   4 bytes

  What is left of a word once the width bits are gone means

      kind          1 byte        2 bytes                  4 bytes
      natural       n             n                        n
      coordinate    n - 64        (n - 8192) / 64          a real
      zero-to-one   n / 120       n / 15120                a real

  where a real is a single precision number whose two lowest bits gave way to
  the width.  A `Word` is a number in its written width; for every kind there is
  a function to a word and one back, and the narrowest word which means the
  number exactly is the one written.
-/
import VectorIcon.Geometry
import VectorIcon.Scan

namespace VectorIcon

namespace Icon

/-! ## §1. Words. -/

/-- A number in its written width, the width bits included. -/
inductive Word where
  | one (bits : UInt8)
  | two (bits : UInt16)
  | four (bits : UInt32)
deriving DecidableEq, Repr, Inhabited

namespace Word

/-- The bytes of a word, least significant byte first. -/
def bytes : Word → List UInt8
  | .one b => [b]
  | .two w => [w.toUInt8, (w >>> 8).toUInt8]
  | .four w => [w.toUInt8, (w >>> 8).toUInt8, (w >>> 16).toUInt8, (w >>> 24).toUInt8]

/-- The number of bytes of a word. -/
def size : Word → Nat
  | .one _ => 1
  | .two _ => 2
  | .four _ => 4

theorem length_bytes (w : Word) : w.bytes.length = w.size := by
  cases w <;> rfl

/-! ## §2. Words of numbers. -/

/-- The word of a natural.  The two width bits push the two highest bits out of
    a word of four bytes, naturals from `2^30` on are not kept. -/
def ofNatural (n : UInt32) : Word :=
  if n < 128 then .one (n <<< 1).toUInt8
  else if n < 16384 then .two ((n <<< 2) ||| 1).toUInt16
  else .four ((n <<< 2) ||| 3)

/-- The bits of a real with the width bits in place of the two lowest ones.
    The mantissa is rounded to a multiple of four by adding two, unless that
    would carry into the exponent. -/
def realBits (x : Scalar) : UInt32 :=
  let bits := x.toBits
  let mantissa := bits &&& 0x007fffff
  let mantissa := if mantissa < 0x007ffffe then mantissa + 2 else mantissa
  (bits &&& 0xff800000) ||| mantissa ||| 3

/-- The word of a coordinate: integers of `[-64, 64)` take one byte, the other
    multiples of 1/64 of `[-128, 128)` two. -/
def ofCoordinate (x : Scalar) : Word :=
  let scaled := x * 64.0
  if x.isIntegral && Scalar.inRange (-64.0) 64.0 x then
    .one (UInt8.ofNat ((x.truncate + 64).toNat * 2))
  else if scaled.isIntegral && Scalar.inRange (-8192.0) 8192.0 scaled then
    .two (UInt16.ofNat ((scaled.truncate + 8192).toNat * 4 + 1))
  else .four (realBits x)

/-- The fraction `n / 120`. -/
def shortFraction (n : Nat) : Scalar := Scalar.ofInt n / 120.0

/-- The fraction `n / 15120`. -/
def longFraction (n : Nat) : Scalar := Scalar.ofInt n / 15120.0

/-- The multiple of 1/15120 which a number equals, if there is one of two bytes. -/
def fraction? (x : Scalar) : Option Nat :=
  match (x * 15120.0).nearestInt? with
  | some (.ofNat n) => if n < 16384 && longFraction n == x then some n else none
  | _ => none

/-- The word of a zero-to-one number: multiples of 1/120 take one byte, of
    1/15120 two, as far as the width reaches. -/
def ofZeroToOne (x : Scalar) : Word :=
  match fraction? x with
  | some n =>
    let short := n / 126
    if n % 126 = 0 && short < 128 && shortFraction short == x then .one (UInt8.ofNat (short * 2))
    else .two (UInt16.ofNat (n * 4 + 1))
  | none => .four (realBits x)

/-! ## §3. Numbers of words. -/

/-- A word without its width bits. -/
def payload : Word → UInt32
  | .one b => b.toUInt32 >>> 1
  | .two w => w.toUInt32 >>> 2
  | .four w => w >>> 2

/-- The real in a word of four bytes. -/
def real (w : UInt32) : Scalar := Float32.ofBits (w &&& 0xfffffffc)

/-- The natural a word means. -/
def natural (w : Word) : UInt32 := w.payload

/-- The coordinate a word means. -/
def coordinate : Word → Scalar
  | .four w => real w
  | .two w => (Scalar.ofInt (payload (.two w)).toNat - 8192.0) / 64.0
  | .one b => Scalar.ofInt (payload (.one b)).toNat - 64.0

/-- The zero-to-one number a word means. -/
def zeroToOne : Word → Scalar
  | .four w => real w
  | .two w => longFraction (payload (.two w)).toNat
  | .one b => shortFraction (payload (.one b)).toNat

end Word

/-! ## §4. Coordinates as they are read back. -/

/-- Bytes of a written coordinate. -/
def coordinateSize (x : Scalar) : Nat := (Word.ofCoordinate x).size

/-- Bytes of a written zero-to-one number. -/
def zeroToOneSize (x : Scalar) : Nat := (Word.ofZeroToOne x).size

/-- The coordinate which is read back: itself unless it needs four bytes. -/
def quantizeCoordinate (x : Scalar) : Scalar :=
  match Word.ofCoordinate x with
  | .four w => Word.real w
  | _ => x

/-- Bytes of a natural. -/
def naturalBytes (n : UInt32) : List UInt8 := (Word.ofNatural n).bytes

/-- Bytes of a coordinate. -/
def coordinateBytes (x : Scalar) : List UInt8 := (Word.ofCoordinate x).bytes

/-- Bytes of a zero-to-one number. -/
def zeroToOneBytes (x : Scalar) : List UInt8 := (Word.ofZeroToOne x).bytes

/-- Bytes of a point, the horizontal coordinate first. -/
def pointBytes (p : Point) : List UInt8 := coordinateBytes p.x ++ coordinateBytes p.y

/-- Bytes of a written point. -/
def pointSize (p : Point) : Nat := coordinateSize p.x + coordinateSize p.y

/-- The point which is read back. -/
def quantize (p : Point) : Point := ⟨quantizeCoordinate p.x, quantizeCoordinate p.y⟩

end Icon

end VectorIcon

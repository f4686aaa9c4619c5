/-
  VectorIcon.Text.Utf8
  ────────────────────────────────
  **READING UTF-8.**

  The first byte of a character tells how many bytes follow and the range of the
  second one; any further byte is in `80 … BF`.  The ranges are those of the
  shortest forms of the Unicode scalar values:

      C2 … DF   80 … BF
      E0        A0 … BF   80 … BF
      E1 … EF   80 … BF   80 … BF      (ED: 80 … 9F)
      F0        90 … BF   80 … BF   80 … BF
      F1 … F4   80 … BF   80 … BF   80 … BF      (F4: 80 … 8F)

  A fault lies in the first character which can not be read.  It tells how many
  bytes of it are in their ranges, unless the bytes end there.  `Utf8.decode`
  stops at it, `Utf8.lossy` goes on after those bytes.
-/

namespace VectorIcon

namespace Text

/-- Why bytes are not UTF-8: the first `validUpTo` bytes are. -/
inductive Utf8Fault where
  /-- A sequence of `length` bytes can not be continued to a character. -/
  | invalid (length validUpTo : Nat)
  /-- The bytes end within a character. -/
  | incomplete (validUpTo : Nat)
deriving DecidableEq, Repr, Inhabited

namespace Utf8Fault

/-- The wording of the cause. -/
def message : Utf8Fault → String
  | .invalid length validUpTo =>
    s!"invalid utf-8 sequence of {length} bytes from index {validUpTo}"
  | .incomplete validUpTo => s!"incomplete utf-8 byte sequence from index {validUpTo}"

end Utf8Fault

namespace Utf8

/-! ## §1. First bytes. -/

/-- What the first byte of a character tells. -/
structure Lead where
  /-- The bits of the character in this byte. -/
  bits : Nat
  /-- The number of bytes which follow. -/
  following : Nat
  /-- The least second byte. -/
  least : Nat
  /-- The greatest second byte. -/
  greatest : Nat
deriving DecidableEq, Repr, Inhabited

/-- The meaning of a first byte, none if no character begins with it. -/
def lead? (n : Nat) : Option Lead :=
  if n < 0x80 then some ⟨n, 0, 0x80, 0xbf⟩
  else if n < 0xc2 then none
  else if n < 0xe0 then some ⟨n - 0xc0, 1, 0x80, 0xbf⟩
  else if n < 0xf0 then
    some ⟨n - 0xe0, 2, if n = 0xe0 then 0xa0 else 0x80, if n = 0xed then 0x9f else 0xbf⟩
  else if n < 0xf5 then
    some ⟨n - 0xf0, 3, if n = 0xf0 then 0x90 else 0x80, if n = 0xf4 then 0x8f else 0xbf⟩
  else none

/-! ## §2. The bytes which follow. -/

/-- Read `count` bytes, the first of them in the range `least … greatest`, after
    `seen` bytes of the character.  `bits` is what these give; in a fault, the
    length of the sequence is none if the bytes end. -/
def following (least greatest bits seen : Nat) :
    Nat → List UInt8 → Except (Option Nat) (Nat × List UInt8)
  | 0, bytes => .ok (bits, bytes)
  | _ + 1, [] => .error none
  | count + 1, b :: bytes =>
    let n := b.toNat
    if least ≤ n ∧ n ≤ greatest then
      following 0x80 0xbf (64 * bits + (n - 0x80)) (seen + 1) count bytes
    else .error (some seen)

theorem following_length_le {least greatest bits seen count n : Nat} {bytes rest : List UInt8}
    (h : following least greatest bits seen count bytes = .ok (n, rest)) :
    rest.length ≤ bytes.length := by
  induction count generalizing least greatest bits seen bytes with
  | zero => cases h; exact Nat.le_refl _
  | succ count ih =>
    cases bytes with
    | nil => cases h
    | cons b bytes =>
      simp only [following] at h
      split at h
      · exact Nat.le_succ_of_le (ih h)
      · cases h

/-- The character at the front and the bytes after it. -/
def character (b : UInt8) (bytes : List UInt8) : Except (Option Nat) (Char × List UInt8) :=
  match lead? b.toNat with
  | none => .error (some 1)
  | some l =>
    match following l.least l.greatest l.bits 1 l.following bytes with
    | .ok (n, rest) => .ok (Char.ofNat n, rest)
    | .error e => .error e

theorem character_length_le {b : UInt8} {bytes rest : List UInt8} {c : Char}
    (h : character b bytes = .ok (c, rest)) : rest.length ≤ bytes.length := by
  unfold character at h
  split at h
  · cases h
  · split at h
    · next heq => cases h; exact following_length_le heq
    · cases h

/-! ## §3. Texts. -/

/-- The fault at an offset. -/
def faultAt (offset : Nat) : Option Nat → Utf8Fault
  | some length => .invalid length offset
  | none => .incomplete offset

/-- Read the bytes from an offset on; a character was as long as its shortest
    form, for no longer one can be read. -/
def decodeFrom (offset : Nat) : List UInt8 → Except Utf8Fault (List Char)
  | [] => .ok []
  | b :: bytes =>
    match _ : character b bytes with
    | .error e => .error (faultAt offset e)
    | .ok (c, rest) => do
      let cs ← decodeFrom (offset + c.utf8Size) rest
      return c :: cs
termination_by bytes => bytes.length
decreasing_by
  have := character_length_le ‹_›
  simp only [List.length_cons]
  omega

/-- The text of bytes. -/
def decode (bytes : List UInt8) : Except Utf8Fault (List Char) := decodeFrom 0 bytes

/-- The text of bytes which need not be UTF-8: a replacement character stands for
    every sequence which can not be continued to a character. -/
def lossy : List UInt8 → List Char
  | [] => []
  | b :: bytes =>
    match _ : character b bytes with
    | .ok (c, rest) => c :: lossy rest
    | .error (some length) => '\ufffd' :: lossy (bytes.drop (length - 1))
    | .error none => ['\ufffd']
termination_by bytes => bytes.length
decreasing_by
  · have := character_length_le ‹_›
    simp only [List.length_cons]
    omega
  · simp only [List.length_cons, List.length_drop]
    omega

end Utf8

/-- The number of bytes of a text in UTF-8. -/
def byteLength : List Char → Nat
  | [] => 0
  | c :: cs => c.utf8Size + byteLength cs

/-- The bytes of two texts in a row. -/
theorem byteLength_append (s t : List Char) :
    byteLength (s ++ t) = byteLength s + byteLength t := by
  induction s with
  | nil => exact (Nat.zero_add _).symm
  | cons c cs ih => rw [List.cons_append, byteLength, byteLength, ih, Nat.add_assoc]

end Text

end VectorIcon

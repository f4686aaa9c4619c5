/-
  VectorIcon.Proofs.Icon.Numbers
  ────────────────────────────────
  **NUMBERS IN A ROW ARE READ BACK ONE BY ONE.**

  Naturals, coordinates and zero-to-one numbers may follow each other in any
  order, nothing stands between them: the width bits of the first byte tell
  where a number ends.  A reader which knows the kinds finds

      a natural below 2^30   — the natural, of any other its lowest 30 bits
      a coordinate           — what `quantizeCoordinate` predicts
      a zero-to-one number   — itself in one or two bytes, its real in four

  and leaves exactly what was not written with them (`Buffer.pushAll_read`).

  Main results:
    * `natural_recovered`  — no bit of a natural below 2^30 is lost, whatever
                             its width.
    * `Buffer.pushNatural_read` — what is found of any natural, and which
                             naturals are written alike.
    * `Quantity.reads`     — one number, whatever follows.
    * `Buffer.pushAll_read` — any row of numbers.
-/
import VectorIcon.Icon.Buffer
import VectorIcon.Proofs.Icon.Angle

namespace VectorIcon

namespace Icon

/-! ## §1. Naturals of every width. -/

/-- The word of four bytes with the natural's lowest 30 bits. -/
theorem wide_toNat (n : UInt32) : ((n <<< 2) ||| 3).toNat = n.toNat % 2 ^ 30 * 4 + 3 :=
  UInt32.toNat_shiftLeft_or n 2 3 (by decide) (by decide)

/-- The word of a natural, by its width. -/
theorem ofNatural_cases (n : UInt32) :
    (n.toNat < 128 ∧ Word.ofNatural n = .one (UInt8.ofNat (n.toNat * 2))) ∨
      (n.toNat < 16384 ∧ Word.ofNatural n = .two (UInt16.ofNat (n.toNat * 4 + 1))) ∨
      Word.ofNatural n = .four ((n <<< 2) ||| 3) := by
  unfold Word.ofNatural
  by_cases hone : n < 128
  · left
    have hlt : n.toNat < 128 := UInt32.lt_iff_toNat_lt.1 hone
    rw [if_pos hone]
    refine ⟨hlt, congrArg Word.one (UInt8.toNat_inj.1 ?_)⟩
    rw [UInt32.toNat_toUInt8, UInt32.toNat_shiftLeft, UInt8.toNat_ofNat', Nat.shiftLeft_eq]
    show n.toNat * 2 % 2 ^ 32 % 2 ^ 8 = n.toNat * 2 % 2 ^ 8
    omega
  · right
    rw [if_neg hone]
    by_cases htwo : n < 16384
    · left
      have hlt : n.toNat < 16384 := UInt32.lt_iff_toNat_lt.1 htwo
      rw [if_pos htwo]
      refine ⟨hlt, congrArg Word.two (UInt16.toNat_inj.1 ?_)⟩
      have hshift : ((n <<< 2) ||| 1).toNat = n.toNat % 2 ^ 30 * 4 + 1 :=
        UInt32.toNat_shiftLeft_or n 2 1 (by decide) (by decide)
      rw [UInt32.toNat_toUInt16, UInt16.toNat_ofNat', hshift,
        Nat.mod_eq_of_lt (show n.toNat < 2 ^ 30 by omega)]
    · right
      rw [if_neg htwo]

theorem ofNatural_tagged (n : UInt32) : (Word.ofNatural n).Tagged := by
  rcases ofNatural_cases n with ⟨-, h⟩ | ⟨-, h⟩ | h
  · rw [h]
    exact tagged_one _
  · rw [h]
    exact tagged_two _
  · rw [h]
    exact tagged_or_three _

/-- What a reader finds of a natural are its lowest 30 bits. -/
theorem natural_ofNatural (n : UInt32) : (Word.ofNatural n).natural.toNat = n.toNat % 2 ^ 30 := by
  rcases ofNatural_cases n with ⟨hlt, hw⟩ | ⟨hlt, hw⟩ | hw
  · rw [hw, Nat.mod_eq_of_lt (by omega)]
    exact payload_one hlt
  · rw [hw, Nat.mod_eq_of_lt (by omega)]
    exact payload_two hlt
  · rw [hw]
    show (Word.four ((n <<< 2) ||| 3)).payload.toNat = _
    rw [toNat_payload_four, wide_toNat]
    omega

/-- **No bit of a natural below 2^30 is lost.** -/
theorem natural_recovered {n : UInt32} (h : n.toNat < 2 ^ 30) : (Word.ofNatural n).natural = n := by
  apply UInt32.toNat_inj.1
  rw [natural_ofNatural, Nat.mod_eq_of_lt h]

/-- Words of one width which are read alike are the same: nothing but the width
    bits is not read. -/
theorem Word.Tagged.ext {v w : Word} (hv : v.Tagged) (hw : w.Tagged) (hsize : v.size = w.size)
    (hread : v.natural = w.natural) : v = w := by
  have hread : v.payload.toNat = w.payload.toNat := UInt32.toNat_inj.2 hread
  cases v with
  | one a =>
    cases w with
    | one b =>
      have ha : a.toNat % 2 = 0 := hv
      have hb : b.toNat % 2 = 0 := hw
      rw [toNat_payload_one, toNat_payload_one] at hread
      exact congrArg Word.one (UInt8.toNat_inj.1 (by omega))
    | two | four => cases hsize
  | two a =>
    cases w with
    | two b =>
      have ha : a.toNat % 4 = 1 := hv
      have hb : b.toNat % 4 = 1 := hw
      rw [toNat_payload_two, toNat_payload_two] at hread
      exact congrArg Word.two (UInt16.toNat_inj.1 (by omega))
    | one | four => cases hsize
  | four a =>
    cases w with
    | four b =>
      have ha : a.toNat % 4 = 3 := hv
      have hb : b.toNat % 4 = 3 := hw
      rw [toNat_payload_four, toNat_payload_four] at hread
      exact congrArg Word.four (UInt32.toNat_inj.1 (by omega))
    | one | two => cases hsize

/-- **Which naturals are written alike**: those of one width which share their
    lowest 30 bits. -/
theorem naturalBytes_eq_iff {m n : UInt32} : naturalBytes m = naturalBytes n ↔
    (Word.ofNatural m).size = (Word.ofNatural n).size ∧ m.toNat % 2 ^ 30 = n.toNat % 2 ^ 30 := by
  constructor
  · intro h
    -- the bytes are read as the word they were made of
    have hm := (word_reads (ofNatural_tagged m)).alone
    rw [show (Word.ofNatural m).bytes = (Word.ofNatural n).bytes from h,
      (word_reads (ofNatural_tagged n)).alone] at hm
    have hword : Word.ofNatural n = Word.ofNatural m := by injection hm with hm; injection hm
    rw [← natural_ofNatural, ← natural_ofNatural, hword]
    exact ⟨rfl, rfl⟩
  · rintro ⟨hsize, hbits⟩
    refine congrArg Word.bytes ((ofNatural_tagged m).ext (ofNatural_tagged n) hsize ?_)
    exact UInt32.toNat_inj.1 (by rw [natural_ofNatural, natural_ofNatural, hbits])

/-! ## §2. Reals of numbers. -/

/-- The real of a number is NaN only if the number is: the fraction of an
    infinity stays clear. -/
theorem isNaN_real {x : Scalar} (h : x.isNaN = false) :
    (Word.real (Word.realBits x)).isNaN = false := by
  have hreal := unpacked_real x
  by_cases hexponent : x.biasedExponent = 255
  · have hfraction : x.fractionField = 0 := by
      unfold Scalar.isNaN at h
      simpa [hexponent] using h
    have hself := x.unpacked_eq
    rw [hfraction] at hreal hself
    -- no fraction is kept of no fraction
    have hsame : Scalar.unpacked (Word.real (Word.realBits x)) = x.unpacked := hreal.trans hself.symm
    rw [Scalar.isNaN_eq, hsame, ← Scalar.isNaN_eq]
    exact h
  · rw [Scalar.isNaN_eq, hreal, ofFields_finite _ hexponent]
    exact isNaN_signedMantissa _ _ _

theorem isNaN_quantizeCoordinate {x : Scalar} (h : x.isNaN = false) :
    (quantizeCoordinate x).isNaN = false := by
  rcases quantizeCoordinate_cases x with hq | hq
  · rw [hq]
    exact h
  · rw [hq]
    exact isNaN_real h

/-- Numbers which agree compare equal unless they are NaN. -/
theorem beq_of_agrees {a b : Scalar} (h : a.Agrees b) (hb : b.isNaN = false) : (a == b) = true := by
  rcases h with h | ⟨-, hnan⟩
  · exact h
  · rw [hb] at hnan
    cases hnan

/-! ## §3. Rows of numbers. -/

/-- The ways in which icons write numbers. -/
inductive QuantityKind where
  | natural
  | coordinate
  | zeroToOne
deriving DecidableEq, Repr, Inhabited

/-- A number and the way in which it is written. -/
inductive Quantity where
  | natural (n : UInt32)
  | coordinate (x : Scalar)
  | zeroToOne (x : Scalar)

namespace Quantity

/-- The way in which the number is written. -/
def kind : Quantity → QuantityKind
  | .natural _ => .natural
  | .coordinate _ => .coordinate
  | .zeroToOne _ => .zeroToOne

/-- The bytes of the number. -/
def bytes : Quantity → List UInt8
  | .natural n => naturalBytes n
  | .coordinate x => coordinateBytes x
  | .zeroToOne x => zeroToOneBytes x

/-- How many bytes the number is said to take. -/
def size : Quantity → Nat
  | .natural n => (Word.ofNatural n).size
  | .coordinate x => coordinateSize x
  | .zeroToOne x => zeroToOneSize x

theorem length_bytes (q : Quantity) : q.bytes.length = q.size := by
  cases q <;> exact Word.length_bytes _

/-- What can be written: naturals of 30 bits, and any number but NaN. -/
def Writable : Quantity → Prop
  | .natural n => n.toNat < 2 ^ 30
  | .coordinate x | .zeroToOne x => x.isNaN = false

instance decidableWritable : (q : Quantity) → Decidable q.Writable
  | .natural n => inferInstanceAs (Decidable (n.toNat < 2 ^ 30))
  | .coordinate x | .zeroToOne x => inferInstanceAs (Decidable (x.isNaN = false))

/-- What is found for a written number. -/
inductive FoundAs : Quantity → Quantity → Prop
  | natural (n : UInt32) : FoundAs (.natural n) (.natural n)
  | coordinate {x y : Scalar} (h : (y == quantizeCoordinate x) = true) :
      FoundAs (.coordinate x) (.coordinate y)
  /-- One or two bytes hold the number itself. -/
  | zeroToOneShort {x y : Scalar} (hsize : zeroToOneSize x ≤ 2) (h : (y == x) = true) :
      FoundAs (.zeroToOne x) (.zeroToOne y)
  /-- Four bytes hold its real. -/
  | zeroToOneReal {x y : Scalar} (hsize : 2 < zeroToOneSize x)
      (h : (y == Float32.ofBits (Word.realBits x &&& 0xfffffffc)) = true) :
      FoundAs (.zeroToOne x) (.zeroToOne y)

/-- The number which is found. -/
def recovered : Quantity → Quantity
  | .natural n => .natural n
  | .coordinate x => .coordinate (recoverCoordinate x)
  | .zeroToOne x => .zeroToOne (recoverZeroToOne x)

theorem foundAs_recovered {q : Quantity} (h : q.Writable) : FoundAs q q.recovered := by
  cases q with
  | natural n => exact .natural n
  | coordinate x =>
    exact .coordinate (beq_of_agrees (recoverCoordinate_agrees x) (isNaN_quantizeCoordinate h))
  | zeroToOne x =>
    have hnan : x.isNaN = false := h
    rcases recoverZeroToOne_sized x with ⟨hsize, hsame⟩ | ⟨hsize, hreal⟩
    · exact .zeroToOneShort hsize hsame
    · refine .zeroToOneReal (by omega) ?_
      rw [show recoverZeroToOne x = Float32.ofBits (Word.realBits x &&& 0xfffffffc) from hreal]
      exact beq_of_agrees (.refl _) (isNaN_real hnan)

end Quantity

/-- Read a number which was written in the given way. -/
def QuantityKind.read : QuantityKind → Reading Quantity
  | .natural => return .natural (← Icon.natural)
  | .coordinate => return .coordinate (← Icon.coordinate)
  | .zeroToOne => return .zeroToOne (← Icon.zeroToOne)

/-- Read numbers one after the other. -/
def readQuantities : List QuantityKind → Reading (List Quantity)
  | [] => return []
  | k :: ks => do
    let q ← k.read
    let qs ← readQuantities ks
    return q :: qs

/-- **A number is read back**, whatever follows it. -/
theorem Quantity.reads {q : Quantity} (h : q.Writable) : Reads q.kind.read q.bytes q.recovered := by
  cases q with
  | natural n =>
    have hword := (word_reads (ofNatural_tagged n)).map Word.natural
    rw [natural_recovered h] at hword
    exact hword.map Quantity.natural
  | coordinate x => exact (coordinate_reads x).map Quantity.coordinate
  | zeroToOne x => exact (zeroToOne_reads x).map Quantity.zeroToOne

/-- **Numbers in a row are read back**, whatever follows them. -/
theorem readQuantities_reads {qs : List Quantity} (h : ∀ q ∈ qs, q.Writable) :
    Reads (readQuantities (qs.map Quantity.kind)) (qs.flatMap Quantity.bytes)
      (qs.map Quantity.recovered) := by
  -- the first number takes its own bytes, the others are read off what it leaves
  induction qs with
  | nil => exact .pure []
  | cons q qs ih =>
    have hq := Quantity.reads (h q List.mem_cons_self)
    have hqs := ih fun r hr => h r (List.mem_cons_of_mem q hr)
    exact hq.bind (hqs.map (q.recovered :: ·))

namespace Buffer

/-- Append a number in its way; also the number of bytes it took. -/
def pushQuantity (b : Buffer) : Quantity → Nat × Buffer
  | .natural n => b.pushNatural n
  | .coordinate x => b.pushCoordinate x
  | .zeroToOne x => b.pushZeroToOne x

/-- Append numbers one after the other. -/
def pushAll (b : Buffer) (qs : List Quantity) : Buffer :=
  qs.foldl (fun b q => (b.pushQuantity q).2) b

@[simp] theorem pushQuantity_fst (b : Buffer) (q : Quantity) : (b.pushQuantity q).1 = q.size := by
  cases q <;> rfl

@[simp] theorem bytes_pushQuantity (b : Buffer) (q : Quantity) :
    (b.pushQuantity q).2.bytes = b.bytes ++ q.bytes := by
  cases q <;> rfl

theorem bytes_pushAll (b : Buffer) (qs : List Quantity) :
    (b.pushAll qs).bytes = b.bytes ++ qs.flatMap Quantity.bytes := by
  induction qs generalizing b with
  | nil => simp [pushAll]
  | cons q qs ih =>
    show ((b.pushQuantity q).2.pushAll qs).bytes = _
    rw [ih, bytes_pushQuantity, List.flatMap_cons, List.append_assoc]

/-- **What is found of a natural**: its lowest 30 bits, whatever follows it, so that
    exactly those below 2^30 are read back.  A natural takes as many bytes as the
    write says, and shares them with those which have the same width and the same
    lowest 30 bits. -/
theorem pushNatural_read (b : Buffer) (n : UInt32) :
    ∃ bytes : List UInt8,
      (b.pushNatural n).2.bytes = b.bytes ++ bytes ∧ bytes.length = (b.pushNatural n).1 ∧
      (∀ rest, Icon.natural (bytes ++ rest) = .ok (n % 0x40000000, rest)) ∧
      ((∀ rest, Icon.natural (bytes ++ rest) = .ok (n, rest)) ↔ n < 0x40000000) ∧
      ∀ m, (b.pushNatural m).2.bytes = b.bytes ++ bytes ↔
        (b.pushNatural m).1 = (b.pushNatural n).1 ∧ m % 0x40000000 = n % 0x40000000 := by
  have hmod (m : UInt32) : (m % 0x40000000).toNat = m.toNat % 2 ^ 30 := UInt32.toNat_mod _ _
  have hread : Reads Icon.natural (naturalBytes n) (n % 0x40000000) := by
    have hfound : (Word.ofNatural n).natural = n % 0x40000000 :=
      UInt32.toNat_inj.1 (by rw [natural_ofNatural, hmod])
    rw [← hfound]
    exact (word_reads (ofNatural_tagged n)).map Word.natural
  refine ⟨naturalBytes n, rfl, Word.length_bytes _, hread, ?_, fun m => ?_⟩
  · constructor
    · intro h
      have hsame : n % 0x40000000 = n := by
        have hfound := (hread []).symm.trans (h [])
        injection hfound with hfound
        injection hfound
      rw [UInt32.lt_iff_toNat_lt, ← hsame, hmod]
      exact Nat.mod_lt _ (by decide)
    · intro h
      have hsame : n % 0x40000000 = n :=
        UInt32.toNat_inj.1 (by rw [hmod]; exact Nat.mod_eq_of_lt (UInt32.lt_iff_toNat_lt.1 h))
      rw [hsame] at hread
      exact hread
  · show b.bytes ++ naturalBytes m = b.bytes ++ naturalBytes n ↔ _
    rw [List.append_cancel_left_eq, naturalBytes_eq_iff, ← hmod, ← hmod, UInt32.toNat_inj]
    exact Iff.rfl

/-- A natural of 31 bits is taken without complaint and found as zero, and another
    one has the bytes of a small natural. -/
theorem pushNatural_lossy :
    ¬(∀ n : UInt32, Icon.natural (empty.pushNatural n).2.bytes = .ok (n, [])) ∧
      Icon.natural (empty.pushNatural 0x40000000).2.bytes = .ok (0, []) ∧
      empty.pushNatural 0x40004000 = empty.pushNatural 0x4000 := by
  have hzero : Icon.natural (empty.pushNatural 0x40000000).2.bytes = .ok (0, []) := by
    decide +kernel
  refine ⟨fun h => ?_, hzero, by decide⟩
  have hboth := hzero.symm.trans (h 0x40000000)
  injection hboth with hboth
  injection hboth with hboth
  exact absurd hboth (by decide)

/-- **Numbers are self-delimiting.**  Whatever is written behind each other is
    read back by the same kinds in a row and nothing else is touched, so that
    without anything behind them the reader ends at the end of the data.  Every
    write appends as many bytes as it says, and as many as the number is said to
    take. -/
theorem pushAll_read (qs : List Quantity) (h : ∀ q ∈ qs, q.Writable) :
    (∃ found : List Quantity,
      readQuantities (qs.map Quantity.kind) (empty.pushAll qs).bytes = .ok (found, []) ∧
      (∀ rest, readQuantities (qs.map Quantity.kind) ((empty.pushAll qs).bytes ++ rest) =
        .ok (found, rest)) ∧
      List.Forall₂ Quantity.FoundAs qs found) ∧
    ∀ (b : Buffer) (q : Quantity), ∃ bytes : List UInt8,
      (b.pushQuantity q).2.bytes = b.bytes ++ bytes ∧ bytes.length = (b.pushQuantity q).1 ∧
      (b.pushQuantity q).1 = q.size := by
  refine ⟨⟨qs.map Quantity.recovered, ?_, ?_, ?_⟩, fun b q => ⟨q.bytes, ?_, ?_, ?_⟩⟩
  · have hread := readQuantities_reads h []
    rw [List.append_nil] at hread
    rw [bytes_pushAll]
    exact hread
  · intro rest
    rw [bytes_pushAll]
    exact readQuantities_reads h rest
  · rw [List.forall₂_map_right_iff, List.forall₂_same]
    exact fun q hq => Quantity.foundAs_recovered (h q hq)
  · exact bytes_pushQuantity b q
  · rw [pushQuantity_fst, Quantity.length_bytes]
  · exact pushQuantity_fst b q

/-- Numbers on both sides of every change of width, in mixed order. -/
def mixedQuantities : List Quantity :=
  [.natural 0, .zeroToOne 0.5, .coordinate (-64.0), .natural 127, .coordinate 64.0, .natural 128,
    .zeroToOne 0.0625, .coordinate 0.1, .natural 16383, .natural 16384, .coordinate Scalar.infinity,
    .zeroToOne 0.123456, .coordinate (-0.0), .natural 0x3fffffff, .zeroToOne (-2.0)]

theorem pushAll_read_mixedQuantities :
    (∃ found : List Quantity,
      readQuantities (mixedQuantities.map Quantity.kind) (empty.pushAll mixedQuantities).bytes =
        .ok (found, []) ∧
      (∀ rest, readQuantities (mixedQuantities.map Quantity.kind)
        ((empty.pushAll mixedQuantities).bytes ++ rest) = .ok (found, rest)) ∧
      List.Forall₂ Quantity.FoundAs mixedQuantities found) ∧
    ∀ (b : Buffer) (q : Quantity), ∃ bytes : List UInt8,
      (b.pushQuantity q).2.bytes = b.bytes ++ bytes ∧ bytes.length = (b.pushQuantity q).1 ∧
      (b.pushQuantity q).1 = q.size :=
  pushAll_read mixedQuantities (by decide +kernel)

end Buffer

end Icon

end VectorIcon

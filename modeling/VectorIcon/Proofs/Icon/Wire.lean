/-
  VectorIcon.Proofs.Icon.Wire
  ────────────────────────────────
  **WHAT IS WRITTEN IS READ BACK, AND NOTHING MORE.**

  `Reads p bytes a` says that the reader `p` takes exactly `bytes` off the front
  of any input and gives `a`.  The relation follows the structure of a reader
  (`Reads.bind`, `Reads.times`), so the format is proved piece by piece:

      word_reads          — a word whose width bits are those of its width
      coordinate_reads    — a coordinate, read as `recoverCoordinate`
      reader_reads        — the operands of an instruction
      run_reads           — a run of instructions under one opcode byte

  No float is opened here: which word is chosen does not matter, only that its
  width bits tell its width.
-/
import Mathlib.Algebra.Group.Nat.Defs
import VectorIcon.Icon.Reader
import VectorIcon.Proofs.Bits

namespace VectorIcon

/-- The point with both coordinates replaced. -/
def Point.map (f : Scalar → Scalar) (p : Point) : Point := ⟨f p.x, f p.y⟩

namespace Icon

/-! ## §1. Reading exactly what is there. -/

/-- The reader takes exactly these bytes, whatever follows them. -/
def Reads {α : Type} (p : Reading α) (bytes : List UInt8) (a : α) : Prop :=
  ∀ rest, p (bytes ++ rest) = .ok (a, rest)

namespace Reads

variable {α β : Type} {p : Reading α} {f : α → Reading β}

theorem pure (a : α) : Reads (Pure.pure a) [] a := fun _ => rfl

theorem bind {bs cs : List UInt8} {a : α} {b : β} (hp : Reads p bs a) (hf : Reads (f a) cs b) :
    Reads (p >>= f) (bs ++ cs) b := by
  intro rest
  rw [List.append_assoc]
  exact Scan.bind_ok.2 ⟨a, cs ++ rest, hp _, hf rest⟩

/-- A result which is only wrapped. -/
theorem map {bs : List UInt8} {a : α} (g : α → β) (hp : Reads p bs a) :
    Reads (p >>= fun x => Pure.pure (g x)) bs (g a) := by
  have h : Reads (p >>= fun x => Pure.pure (g x)) (bs ++ []) (g a) := hp.bind (pure (g a))
  rwa [List.append_nil] at h

/-- What is read is read as well with nothing behind it. -/
theorem alone {bs : List UInt8} {a : α} (h : Reads p bs a) : p bs = .ok (a, []) := by
  have hnil := h []
  rwa [List.append_nil] at hnil

/-- The same reader over and over, one item each time. -/
theorem times {γ : Type} (bytes : γ → List UInt8) (value : γ → α) :
    ∀ items : List γ, (∀ i ∈ items, Reads p (bytes i) (value i)) →
      Reads (Scan.times p items.length) (items.flatMap bytes) (items.map value)
  | [], _ => pure []
  | i :: is, h => by
    have hi := h i List.mem_cons_self
    have his := times bytes value is fun j hj => h j (List.mem_cons_of_mem i hj)
    exact hi.bind (his.map (value i :: ·))

end Reads

theorem byte_reads (b : UInt8) : Reads byte [b] b := fun _ => rfl

/-! ## §2. Words tell their width. -/

/-- The width bits are those of the width. -/
def Word.Tagged : Word → Prop
  | .one b => b.toNat % 2 = 0
  | .two w => w.toNat % 4 = 1
  | .four w => w.toNat % 4 = 3

/-- The byte without its width bit. -/
theorem toNat_payload_one (b : UInt8) : (Word.one b).payload.toNat = b.toNat / 2 := by
  show (b.toUInt32 >>> 1).toNat = b.toNat / 2
  rw [UInt32.toNat_shiftRight, UInt8.toNat_toUInt32, Nat.shiftRight_eq_div_pow]
  rfl

/-- Two bytes without their width bits. -/
theorem toNat_payload_two (w : UInt16) : (Word.two w).payload.toNat = w.toNat / 4 := by
  show (w.toUInt32 >>> 2).toNat = w.toNat / 4
  rw [UInt32.toNat_shiftRight, UInt16.toNat_toUInt32, Nat.shiftRight_eq_div_pow]
  rfl

/-- Four bytes without their width bits. -/
theorem toNat_payload_four (w : UInt32) : (Word.four w).payload.toNat = w.toNat / 4 := by
  show (w >>> 2).toNat = w.toNat / 4
  rw [UInt32.toNat_shiftRight, Nat.shiftRight_eq_div_pow]
  rfl

theorem joinTwo_toNat (a b : UInt8) : (joinTwo a b).toNat = a.toNat + b.toNat * 256 := by
  have ha := a.toNat_lt
  have hb := b.toNat_lt
  -- nothing is shifted out, and the bytes do not overlap
  have hs : b.toNat <<< 8 % 2 ^ 16 = b.toNat <<< 8 := by rw [Nat.shiftLeft_eq]; omega
  show (a.toUInt16 ||| b.toUInt16 <<< 8).toNat = _
  simp only [UInt16.toNat_or, UInt16.toNat_shiftLeft, UInt8.toNat_toUInt16]
  show a.toNat ||| b.toNat <<< 8 % 2 ^ 16 = _
  have hor : a.toNat ||| b.toNat <<< 8 = a.toNat + b.toNat * 2 ^ 8 := Nat.or_shiftLeft_eq_add (by omega)
  rw [hs]
  exact hor.trans (by omega)

theorem joinFour_toNat (a b c d : UInt8) :
    (joinFour a b c d).toNat = a.toNat + b.toNat * 256 + c.toNat * 65536 + d.toNat * 16777216 := by
  have ha := a.toNat_lt
  have hb := b.toNat_lt
  have hc := c.toNat_lt
  have hd := d.toNat_lt
  -- the same for four bytes, joined from the lowest up
  have hs8 : b.toNat <<< 8 % 2 ^ 32 = b.toNat <<< 8 := by rw [Nat.shiftLeft_eq]; omega
  have hs16 : c.toNat <<< 16 % 2 ^ 32 = c.toNat <<< 16 := by rw [Nat.shiftLeft_eq]; omega
  have hs24 : d.toNat <<< 24 % 2 ^ 32 = d.toNat <<< 24 := by rw [Nat.shiftLeft_eq]; omega
  show (a.toUInt32 ||| b.toUInt32 <<< 8 ||| c.toUInt32 <<< 16 ||| d.toUInt32 <<< 24).toNat = _
  simp only [UInt32.toNat_or, UInt32.toNat_shiftLeft, UInt8.toNat_toUInt32]
  show a.toNat ||| b.toNat <<< 8 % 2 ^ 32 ||| c.toNat <<< 16 % 2 ^ 32 ||| d.toNat <<< 24 % 2 ^ 32 = _
  have hor : a.toNat ||| b.toNat <<< 8 ||| c.toNat <<< 16 ||| d.toNat <<< 24 =
      a.toNat + b.toNat * 2 ^ 8 + c.toNat * 2 ^ 16 + d.toNat * 2 ^ 24 := by
    rw [Nat.or_shiftLeft_eq_add (show a.toNat < 2 ^ 8 by omega),
      Nat.or_shiftLeft_eq_add (show a.toNat + b.toNat * 2 ^ 8 < 2 ^ 16 by omega),
      Nat.or_shiftLeft_eq_add (show a.toNat + b.toNat * 2 ^ 8 + c.toNat * 2 ^ 16 < 2 ^ 24 by omega)]
  rw [hs8, hs16, hs24]
  exact hor.trans (by omega)

/-- The two bytes of a word make the word again. -/
theorem joinTwo_split (w : UInt16) : joinTwo w.toUInt8 (w >>> 8).toUInt8 = w := by
  have hw := w.toNat_lt
  apply UInt16.toNat_inj.1
  simp only [joinTwo_toNat, UInt16.toNat_toUInt8, UInt16.toNat_shiftRight]
  show w.toNat % 256 + (w.toNat >>> 8) % 256 * 256 = w.toNat
  simp only [Nat.shiftRight_eq_div_pow]
  omega

/-- The four bytes of a word make the word again. -/
theorem joinFour_split (w : UInt32) :
    joinFour w.toUInt8 (w >>> 8).toUInt8 (w >>> 16).toUInt8 (w >>> 24).toUInt8 = w := by
  have hw := w.toNat_lt
  apply UInt32.toNat_inj.1
  simp only [joinFour_toNat, UInt32.toNat_toUInt8, UInt32.toNat_shiftRight]
  show w.toNat % 256 + (w.toNat >>> 8) % 256 * 256 + (w.toNat >>> 16) % 256 * 65536 +
    (w.toNat >>> 24) % 256 * 16777216 = w.toNat
  simp only [Nat.shiftRight_eq_div_pow]
  omega

/-- **A tagged word is read back.** -/
theorem word_reads {w : Word} (h : w.Tagged) : Reads word w.bytes w := by
  intro rest
  cases w with
  | one b =>
    have h : b.toNat % 2 = 0 := h
    show word (b :: rest) = _
    unfold word
    simp only
    rw [if_pos h]
  | two w =>
    have hm : w.toUInt8.toNat = w.toNat % 256 := UInt16.toNat_toUInt8 w
    have h : w.toNat % 4 = 1 := h
    show word (w.toUInt8 :: (w >>> 8).toUInt8 :: rest) = _
    unfold word
    simp only
    rw [if_neg (by omega), if_pos (by omega), joinTwo_split]
  | four w =>
    have hm : w.toUInt8.toNat = w.toNat % 256 := UInt32.toNat_toUInt8 w
    have h : w.toNat % 4 = 3 := h
    show word (w.toUInt8 :: (w >>> 8).toUInt8 :: (w >>> 16).toUInt8 :: (w >>> 24).toUInt8 :: rest) = _
    unfold word
    simp only
    rw [if_neg (by omega), if_neg (by omega), joinFour_split]

/-! ## §3. Every written word is tagged. -/

theorem tagged_one (n : Nat) : (Word.one (UInt8.ofNat (n * 2))).Tagged := by
  show (UInt8.ofNat (n * 2)).toNat % 2 = 0
  rw [UInt8.toNat_ofNat']
  omega

theorem tagged_two (n : Nat) : (Word.two (UInt16.ofNat (n * 4 + 1))).Tagged := by
  show (UInt16.ofNat (n * 4 + 1)).toNat % 4 = 1
  rw [UInt16.toNat_ofNat']
  omega

theorem tagged_or_three (n : UInt32) : (Word.four (n ||| 3)).Tagged := by
  show (n ||| 3).toNat % 4 = 3
  rw [UInt32.toNat_or]
  exact Nat.or_three_mod_four _

theorem ofCoordinate_tagged (x : Scalar) : (Word.ofCoordinate x).Tagged := by
  unfold Word.ofCoordinate
  simp only
  split
  · exact tagged_one _
  · split
    · exact tagged_two _
    · exact tagged_or_three _

theorem ofZeroToOne_tagged (x : Scalar) : (Word.ofZeroToOne x).Tagged := by
  unfold Word.ofZeroToOne
  split
  · simp only
    split
    · exact tagged_one _
    · exact tagged_two _
  · exact tagged_or_three _

/-! ## §4. Numbers and points. -/

/-- The coordinate which is read for a written one. -/
def recoverCoordinate (x : Scalar) : Scalar := (Word.ofCoordinate x).coordinate

/-- The zero-to-one number which is read for a written one. -/
def recoverZeroToOne (x : Scalar) : Scalar := (Word.ofZeroToOne x).zeroToOne

/-- The point which is read for a written one. -/
def recoverPoint (p : Point) : Point := p.map recoverCoordinate

theorem coordinate_reads (x : Scalar) :
    Reads coordinate (coordinateBytes x) (recoverCoordinate x) :=
  (word_reads (ofCoordinate_tagged x)).map Word.coordinate

theorem zeroToOne_reads (x : Scalar) : Reads zeroToOne (zeroToOneBytes x) (recoverZeroToOne x) :=
  (word_reads (ofZeroToOne_tagged x)).map Word.zeroToOne

theorem point_reads (p : Point) : Reads point (pointBytes p) (recoverPoint p) :=
  (coordinate_reads p.x).bind ((coordinate_reads p.y).map _)

/-- A natural of one byte. -/
theorem ofNatural_small {n : Nat} (h : n < 128) :
    Word.ofNatural (UInt32.ofNat n) = .one (UInt8.ofNat (n * 2)) := by
  have hn : (UInt32.ofNat n).toNat = n := by rw [UInt32.toNat_ofNat']; omega
  have hlt : UInt32.ofNat n < 128 := by
    rw [UInt32.lt_iff_toNat_lt, hn]
    exact h
  unfold Word.ofNatural
  rw [if_pos hlt]
  congr 1
  apply UInt8.toNat_inj.1
  rw [UInt32.toNat_toUInt8, UInt32.toNat_shiftLeft, hn, UInt8.toNat_ofNat']
  show n <<< 1 % 2 ^ 32 % 2 ^ 8 = n * 2 % 2 ^ 8
  rw [Nat.shiftLeft_eq]
  omega

/-- A natural below 128 is read back. -/
theorem natural_reads {n : Nat} (h : n < 128) :
    Reads natural (naturalBytes (UInt32.ofNat n)) (UInt32.ofNat n) := by
  have hw : (Word.one (UInt8.ofNat (n * 2))).natural = UInt32.ofNat n := by
    apply UInt32.toNat_inj.1
    show (Word.one (UInt8.ofNat (n * 2))).payload.toNat = _
    rw [toNat_payload_one, UInt8.toNat_ofNat', UInt32.toNat_ofNat']
    omega
  -- what is below 128 takes one byte, with the width bit clear
  have hr := (word_reads (tagged_one n)).map Word.natural
  rw [hw] at hr
  unfold naturalBytes
  rw [ofNatural_small h]
  exact hr

/-! ## §5. Instructions. -/

namespace Instruction

/-- The instruction whose coordinates are read in the given way; the rotation of
    an arc is the one which is read for a written one. -/
def readAs (read : Scalar → Scalar) : Instruction → Instruction
  | .line f target => .line f (target.map read)
  | .smoothQuad f target => .smoothQuad f (target.map read)
  | .quad f control target => .quad f (control.map read) (target.map read)
  | .smoothCubic f second target => .smoothCubic f (second.map read) (target.map read)
  | .cubic f first second target => .cubic f (first.map read) (second.map read) (target.map read)
  | .arc f radii rotation large sweep target =>
    .arc f (radii.map read) (recoverZeroToOne rotation) large sweep (target.map read)
  | .horizontal f x => .horizontal f (read x)
  | .vertical f y => .vertical f (read y)
  | .closeMove f target => .closeMove f (target.map read)
  | .endPath => .endPath

/-- The instruction which is read for a written one. -/
def recovered : Instruction → Instruction := readAs recoverCoordinate

/-- How the operands of an instruction are read. -/
def reader : Instruction → Reading Instruction
  | .line f _ => return .line f (← point)
  | .smoothQuad f _ => return .smoothQuad f (← point)
  | .quad f _ _ => return .quad f (← point) (← point)
  | .smoothCubic f _ _ => return .smoothCubic f (← point) (← point)
  | .cubic f _ _ _ => return .cubic f (← point) (← point) (← point)
  | .arc f _ _ _ _ _ => arcOperands f
  | .horizontal f _ => return .horizontal f (← coordinate)
  | .vertical f _ => return .vertical f (← coordinate)
  | .closeMove f _ => return .closeMove f (← point)
  | .endPath => return .endPath

theorem arcFlags_reads (large sweep : Bool) :
    Reads natural (naturalBytes (arcFlags large sweep)) (arcFlags large sweep) := by
  cases large <;> cases sweep
  · exact natural_reads (n := 0) (by decide)
  · exact natural_reads (n := 2) (by decide)
  · exact natural_reads (n := 1) (by decide)
  · exact natural_reads (n := 3) (by decide)

/-- The two flags of an arc are the two bits of their natural. -/
theorem arcFlags_bits (large sweep : Bool) :
    decide ((arcFlags large sweep).toNat % 2 = 1) = large ∧
      decide ((arcFlags large sweep).toNat / 2 % 2 = 1) = sweep := by
  cases large <;> cases sweep <;> decide

theorem arcOperands_reads (f : Frame) (radii : Point) (rotation : Scalar) (large sweep : Bool)
    (target : Point) :
    Reads (arcOperands f) (operandBytes (.arc f radii rotation large sweep target))
      (recovered (.arc f radii rotation large sweep target)) := by
  obtain ⟨hl, hs⟩ := arcFlags_bits large sweep
  show Reads _ (pointBytes radii ++ zeroToOneBytes rotation ++ _ ++ pointBytes target) _
  rw [List.append_assoc, List.append_assoc]
  unfold arcOperands
  refine (point_reads radii).bind ((zeroToOne_reads rotation).bind
    ((arcFlags_reads large sweep).bind ?_))
  -- the flags which are read off the natural are those which went in
  rw [hl, hs]
  exact (point_reads target).map (Instruction.arc f _ _ large sweep)

/-- **The operands of an instruction are read back.** -/
theorem reader_reads (i : Instruction) : Reads i.reader i.operandBytes i.recovered := by
  cases i with
  | line f target => exact (point_reads target).map (Instruction.line f)
  | smoothQuad f target => exact (point_reads target).map (Instruction.smoothQuad f)
  | quad f control target => exact (point_reads control).bind ((point_reads target).map _)
  | smoothCubic f second target => exact (point_reads second).bind ((point_reads target).map _)
  | cubic f first second target =>
    show Reads _ (pointBytes first ++ pointBytes second ++ pointBytes target) _
    rw [List.append_assoc]
    exact (point_reads first).bind ((point_reads second).bind ((point_reads target).map _))
  | arc f radii rotation large sweep target => exact arcOperands_reads f radii rotation large sweep target
  | horizontal f x => exact (coordinate_reads x).map (Instruction.horizontal f)
  | vertical f y => exact (coordinate_reads y).map (Instruction.vertical f)
  | closeMove f target => exact (point_reads target).map (Instruction.closeMove f)
  | endPath => exact Reads.pure _

/-! ## §6. Opcode bytes. -/

/-- The opcode bytes of lines: the frame in bit 5, the length of the run below. -/
theorem operands?_lines {b : UInt8} {r k : Nat} (hb : b.toNat = 32 * r + k) (hr : r < 2)
    (hk : k < 32) :
    operands? b = some (k + 1, return .line (frameOf (r = 1)) (← point)) := by
  have hlow : b.toNat < 0x40 := by omega
  have hframe : decide (0x20 ≤ b.toNat) = decide (r = 1) := by
    rw [decide_eq_decide]
    omega
  have hcount : b.toNat % 32 = k := by omega
  unfold operands?
  simp only
  rw [if_pos hlow, hframe, hcount]

/-- How the operands of the curves and arcs of an opcode family are read. -/
def curveReader (family : Nat) (f : Frame) : Reading Instruction :=
  match family with
  | 2 => return .smoothQuad f (← point)
  | 3 => return .quad f (← point) (← point)
  | 4 => return .smoothCubic f (← point) (← point)
  | 5 => return .cubic f (← point) (← point) (← point)
  | _ => arcOperands f

/-- The opcode bytes of curves and arcs: the family in the highest bits, the
    frame in bit 4, the length of the run below. -/
theorem operands?_curves {b : UInt8} {c r k : Nat} (hb : b.toNat = 32 * c + 16 * r + k)
    (hc : 2 ≤ c) (hc' : c ≤ 6) (hr : r < 2) (hk : k < 16) :
    operands? b = some (k + 1, curveReader c (frameOf (r = 1))) := by
  have hlow : ¬ b.toNat < 0x40 := by omega
  have hhigh : b.toNat < 0xe0 := by omega
  have hframe : decide (b.toNat / 16 % 2 = 1) = decide (r = 1) := by
    rw [decide_eq_decide]
    omega
  have hcount : b.toNat % 16 = k := by omega
  have hfamily : b.toNat / 32 = c := by omega
  unfold operands?
  simp only
  rw [if_neg hlow, if_pos hhigh, hframe, hcount, hfamily]
  rfl

/-- An opcode raised by a run length stays below the byte limit. -/
theorem toNat_opcode_add {b : UInt8} (n : Nat) {k : Nat} (hb : b.toNat = n) (h : n + k < 256) :
    (b + UInt8.ofNat k).toNat = n + k := by
  rw [UInt8.toNat_add, UInt8.toNat_ofNat', hb]
  omega

/-- **The opcode byte of a run** tells how long the run is and how its operands
    are read. -/
theorem operands?_opcode (i : Instruction) {k : Nat} (hk : k < i.capacity) :
    operands? (i.opcode + UInt8.ofNat k) = some (k + 1, i.reader) := by
  -- curves and arcs share one layout of the byte, with 16 places in each frame
  have curve (f : Frame) (c : Nat) (absolute relative : UInt8) (hc : 2 ≤ c) (hc' : c ≤ 6)
      (ha : absolute.toNat = 32 * c) (hr : relative.toNat = 32 * c + 16) (hk : k < 16) :
      operands? (pick f absolute relative + UInt8.ofNat k) = some (k + 1, curveReader c f) := by
    cases f with
    | absolute =>
      exact operands?_curves (r := 0) (toNat_opcode_add _ ha (by omega)) hc hc' (by omega) hk
    | relative =>
      exact operands?_curves (r := 1) (toNat_opcode_add _ hr (by omega)) hc hc' (by omega) hk
  -- an instruction which is never repeated keeps its opcode
  have single (h : k < 1) : k = 0 := by omega
  cases i with
  | line f target =>
    have hk : k < 32 := hk
    cases f with
    | absolute =>
      exact operands?_lines (r := 0) (toNat_opcode_add 0 rfl (by omega)) (by omega) hk
    | relative =>
      exact operands?_lines (r := 1) (toNat_opcode_add 32 rfl (by omega)) (by omega) hk
  | smoothQuad f target => exact curve f 2 0x40 0x50 (by omega) (by omega) rfl rfl hk
  | quad f control target => exact curve f 3 0x60 0x70 (by omega) (by omega) rfl rfl hk
  | smoothCubic f second target => exact curve f 4 0x80 0x90 (by omega) (by omega) rfl rfl hk
  | cubic f first second target => exact curve f 5 0xa0 0xb0 (by omega) (by omega) rfl rfl hk
  | arc f radii rotation large sweep target => exact curve f 6 0xc0 0xd0 (by omega) (by omega) rfl rfl hk
  | horizontal f x =>
    obtain rfl := single hk
    cases f <;> rfl
  | vertical f y =>
    obtain rfl := single hk
    cases f <;> rfl
  | closeMove f target =>
    obtain rfl := single hk
    cases f <;> rfl
  | endPath =>
    obtain rfl := single hk
    rfl

theorem capacity_pos (i : Instruction) : 0 < i.capacity := by
  cases i <;> simp [capacity]

/-- Instructions which share an opcode read their operands the same way. -/
theorem reader_eq_of_opcode_eq {i j : Instruction} (h : i.opcode = j.opcode) :
    i.reader = j.reader := by
  have hi := operands?_opcode i i.capacity_pos
  rw [h, operands?_opcode j j.capacity_pos] at hi
  exact (Prod.mk.inj (Option.some.inj hi)).2.symm

end Instruction

end Icon

end VectorIcon

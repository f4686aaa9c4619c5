/-
  VectorIcon.Proofs.Icon.Header
  ────────────────────────────────
  **THE HEADER SAYS WHAT IT HOLDS, AND HOW MUCH.**

  The header of an icon is written from half the output size and from the
  foreground.  What is read back is

      the view box  `[-q, -q, q, q]`, where `q` is half the size as a coordinate
      the palette   the foreground in its direct form, no entry for black

  and either chunk is there only if it tells something the reader does not
  assume.  The two signs of half the size may take words of different widths
  (`-64` one byte, `64` two); that they are read as opposite numbers is
  `quantizeCoordinate_neg`.  Lengths and counts are read off the bytes alone
  (`IsChunk`), not computed from what was meant.

  Main result:
    * `Encoder.header_decoded`.
-/
import VectorIcon.Proofs.Icon.Numbers
import VectorIcon.Proofs.Icon.Outcome

namespace VectorIcon

open Float.Model Float.Model.UnpackedFloat

/-! ## §1. Opposite numbers. -/

/-- The opposite of what the fields stand for has the opposite sign. -/
theorem ofFields_neg (s : Sign) (e f : ℕ) : (ofFields s e f).neg = ofFields (-s) e f := by
  have hmantissa (m : ℕ) (e : ℤ) : (signedMantissa s m e).neg = signedMantissa (-s) m e := by
    rcases Nat.eq_zero_or_pos m with rfl | hm
    · rfl
    · rw [signedMantissa_pos s e hm, signedMantissa_pos (-s) e hm]
      rfl
  unfold ofFields
  rw [← hmantissa, ← hmantissa]
  split
  · split <;> rfl
  · split <;> rfl

namespace Scalar

protected theorem neg_neg (x : Scalar) : - -x = x := by
  apply unpacked_injective
  rw [unpacked_neg, unpacked_neg]
  cases x.unpacked with
  | notANumber => rfl
  | infinity s | zero s | finite s => cases s <;> rfl

theorem isNaN_neg (x : Scalar) : isNaN (-x) = isNaN x := by
  rw [isNaN_eq, isNaN_eq, unpacked_neg]
  cases x.unpacked <;> rfl

/-- The bits of the opposite number: only the sign differs. -/
theorem toBits_neg {x : Scalar} (h : isNaN x = false) :
    (-x).toBits.toNat = (-signOf x.isNegative).toBitVec.toNat * 0x80000000 +
      x.biasedExponent * 0x800000 + x.fractionField := by
  have he := x.biasedExponent_lt
  have hf := x.fractionField_lt
  have hnan : x.biasedExponent = 255 → x.fractionField = 0 := by
    unfold isNaN at h
    simpa using h
  show (UnpackedFloat.pack .binary32 x.unpacked.neg).toNat = _
  rw [x.unpacked_eq, ofFields_neg, pack_ofFields _ he hf hnan, packComponents_toNat,
    BitVec.toNat_ofNat, BitVec.toNat_ofNat, Nat.mod_eq_of_lt he, Nat.mod_eq_of_lt hf]

/-- The fields of the opposite number. -/
theorem neg_fields {x : Scalar} (h : isNaN x = false) :
    signOf (-x).isNegative = -signOf x.isNegative ∧ (-x).biasedExponent = x.biasedExponent ∧
      (-x).fractionField = x.fractionField := by
  have he := x.biasedExponent_lt
  have hf := x.fractionField_lt
  have hbits := toBits_neg h
  have hsign : (-signOf x.isNegative).toBitVec.toNat = if x.isNegative then 0 else 1 := by
    cases x.isNegative <;> rfl
  rw [hsign] at hbits
  refine ⟨?_, ?_, ?_⟩
  · have hnegative : (-x).isNegative = !x.isNegative := by
      unfold isNegative at hbits ⊢
      split at hbits
      · next hx =>
        rw [hx]
        exact decide_eq_false (by omega)
      · next hx =>
        rw [Bool.not_eq_true] at hx
        rw [hx]
        exact decide_eq_true (by omega)
    rw [hnegative]
    cases x.isNegative <;> rfl
  · unfold biasedExponent at he hbits ⊢
    split at hbits <;> omega
  · unfold fractionField at hf hbits ⊢
    split at hbits <;> omega

/-- Numbers which agree are the same unless they are zeros. -/
theorem Agrees.eq {a b : Scalar} (h : a.Agrees b) (hb : b.value ≠ 0) : a = b := by
  rcases (agrees_iff a b).1 h with h | ⟨_, s', -, hzero⟩
  · exact unpacked_injective h
  · refine absurd ?_ hb
    rw [value_eq, hzero]
    rfl

/-- Half a number is a number. -/
theorem isNaN_half {x : Scalar} (h : isNaN x = false) : isNaN (x / 2.0) = false := by
  obtain ⟨h2, hv2⟩ := finite_2
  by_cases hx : isFinite x = true
  · have hsmall : |x.value / (2.0 : Scalar).value| < 2 ^ 127 := by
      have hlt := x.abs_value_lt
      rw [hv2, abs_div, abs_two, div_lt_iff₀ (by norm_num)]
      calc |x.value| < 2 ^ 128 := hlt
        _ = 2 ^ 127 * 2 := by norm_num
    have hfinite := (div_approximates hx h2 (by rw [hv2]; norm_num)).finite hsmall
    rw [isFinite_eq] at hfinite
    rw [isNaN_eq]
    generalize (x / 2.0).unpacked = u at hfinite ⊢
    cases u with
    | infinity | notANumber => cases hfinite
    | zero | finite => rfl
  · -- an infinity stays one
    have hinfinite : ∃ s, x.unpacked = .infinity s := by
      rw [isFinite_eq] at hx
      rw [isNaN_eq] at h
      generalize x.unpacked = u at h hx ⊢
      cases u with
      | infinity s => exact ⟨s, rfl⟩
      | notANumber => cases h
      | zero | finite => exact absurd rfl hx
    obtain ⟨s, hs⟩ := hinfinite
    have hdiv : (x / 2.0).unpacked = .infinity s := by
      show (Float32.Model.pack (UnpackedFloat.div .binary32 x.unpacked (2.0 : Scalar).unpacked)).unpack = _
      rw [hs]
      cases s <;> rfl
    rw [isNaN_eq, hdiv]
    rfl

end Scalar

namespace Icon

/-- Reals of opposite numbers are opposite. -/
theorem real_neg {x : Scalar} (h : x.isNaN = false) :
    Word.real (Word.realBits (-x)) = -Word.real (Word.realBits x) := by
  obtain ⟨hsign, hexponent, hfraction⟩ := Scalar.neg_fields h
  apply Scalar.unpacked_injective
  rw [unpacked_real, Scalar.unpacked_neg, unpacked_real, ofFields_neg, hsign, hexponent, hfraction]

/-- Coordinates which do not take a real: multiples of 1/64 in `[-128, 128)`. -/
theorem ofCoordinate_grid (x : Scalar) :
    (x.isFinite = true ∧ ∃ n : ℤ, x.value = n / 64 ∧ -8192 ≤ n ∧ n < 8192) ∨
      quantizeCoordinate x = Word.real (Word.realBits x) := by
  rcases ofCoordinate_cases x with ⟨hx, n, hn, hlow, hhigh, -⟩ | ⟨hx, n, hn, hlow, hhigh, -⟩ | h
  · refine .inl ⟨hx, n * 64, ?_, by omega, by omega⟩
    rw [hn]
    push_cast
    ring
  · exact .inl ⟨hx, n, hn, hlow, hhigh⟩
  · right
    unfold quantizeCoordinate
    rw [h]

/-- The opposite of a number on the grid is on the grid as well, or it is 128,
    which takes a real and loses nothing by it. -/
theorem quantizeCoordinate_neg_grid {x : Scalar} (hx : x.isFinite = true) {n : ℤ}
    (hn : x.value = n / 64) (hlow : -8192 ≤ n) (hhigh : n < 8192) : quantizeCoordinate (-x) = -x := by
  have hfinite : (-x).isFinite = true := by rw [Scalar.isFinite_neg, hx]
  have hvalue : (-x).value = ((-n : ℤ) : ℚ) / 64 := by
    rw [Scalar.value_neg, hn]
    push_cast
    ring
  by_cases hcorner : n = -8192
  · obtain ⟨h128, hv128⟩ := Scalar.finite_128
    have hagrees : (-x).Agrees 128.0 :=
      Scalar.agrees_of_value hfinite h128 (by rw [hvalue, hcorner, hv128]; norm_num)
    rw [hagrees.eq (by rw [hv128]; norm_num)]
    decide +kernel
  · exact quantizeCoordinate_grid hfinite hvalue (by omega) (by omega)

/-- **Opposite numbers are read back as opposite numbers**, whatever the widths
    of the two. -/
theorem quantizeCoordinate_neg {x : Scalar} (h : x.isNaN = false) :
    quantizeCoordinate (-x) = -quantizeCoordinate x := by
  rcases ofCoordinate_grid x with ⟨hx, n, hn, hlow, hhigh⟩ | hreal
  · rw [quantizeCoordinate_neg_grid hx hn hlow hhigh, quantizeCoordinate_grid hx hn hlow hhigh]
  · rcases ofCoordinate_grid (-x) with ⟨hx, n, hn, hlow, hhigh⟩ | hreal'
    · -- the opposite of the opposite is the number
      have hx' := quantizeCoordinate_neg_grid hx hn hlow hhigh
      rw [Scalar.neg_neg] at hx'
      rw [quantizeCoordinate_grid hx hn hlow hhigh, hx']
    · rw [hreal, hreal', real_neg h]

/-! ## §2. Chunks as they are found. -/

/-- Bytes of a chunk of the given kind: what stands at their front, read as a
    natural, is the number of bytes behind it, and the kind comes next. -/
def IsChunk (kind : UInt32) (bytes : List UInt8) : Prop :=
  ∃ length content data, natural bytes = .ok (length, content) ∧ content.length = length.toNat ∧
    natural content = .ok (kind, data)

/-- A short chunk is as long as it says. -/
theorem chunk_isChunk (kind : ℕ) {data : List UInt8} (hk : kind < 128)
    (hlen : (naturalBytes (UInt32.ofNat kind) ++ data).length < 128) :
    IsChunk (UInt32.ofNat kind) (chunk (UInt32.ofNat kind) data) := by
  refine ⟨_, _, data, natural_reads hlen _, ?_, natural_reads hk data⟩
  rw [UInt32.toNat_ofNat']
  omega

namespace Encoder

theorem viewBoxChunk_isChunk (e : Encoder) : IsChunk viewBoxKind e.viewBoxChunk := by
  have hlow := coordinateBytes_length_le (-(e.outputSize / 2.0))
  have hhigh := coordinateBytes_length_le (e.outputSize / 2.0)
  refine chunk_isChunk 0 (by decide) ?_
  rw [List.length_append, naturalBytes_length (by decide)]
  simp only [List.flatMap_cons, List.flatMap_nil, List.length_append, List.length_nil]
  omega

theorem paletteChunk_isChunk (e : Encoder) : IsChunk paletteKind e.paletteChunk := by
  have hform : (DirectColor.ofRgba e.foreground).form.toNat ≤ 3 := by
    cases DirectColor.ofRgba e.foreground <;> simp only [DirectColor.form] <;> decide
  refine chunk_isChunk 1 (by decide) ?_
  rw [List.length_append, naturalBytes_length (by decide), List.length_cons,
    DirectColor.length_bytes]
  omega

/-- The kinds of the chunks which the header needs, in their order. -/
def chunkKinds (e : Encoder) : List UInt32 :=
  (if e.outputSize / 2.0 != defaultHalfSize then [viewBoxKind] else []) ++
    (if e.foreground ≠ .black then [paletteKind] else [])

theorem chunks_areChunks (e : Encoder) : List.Forall₂ IsChunk e.chunkKinds e.chunks := by
  unfold chunkKinds chunks
  refine List.rel_append ?_ ?_
  · split
    · exact .cons e.viewBoxChunk_isChunk .nil
    · exact .nil
  · split
    · exact .cons e.paletteChunk_isChunk .nil
    · exact .nil

theorem viewBoxKind_mem (e : Encoder) :
    viewBoxKind ∈ e.chunkKinds ↔ (e.outputSize / 2.0 == 32.0) = false := by
  unfold chunkKinds bne defaultHalfSize
  cases e.outputSize / 2.0 == 32.0 with
  | false => exact iff_of_true List.mem_cons_self rfl
  | true =>
    refine iff_of_false (fun hmem => ?_) (by decide)
    by_cases hblack : e.foreground = .black
    · rw [if_neg (not_not_intro hblack)] at hmem
      exact absurd hmem (by decide)
    · rw [if_pos hblack] at hmem
      exact absurd hmem (by decide)

theorem paletteKind_mem (e : Encoder) : paletteKind ∈ e.chunkKinds ↔ e.foreground ≠ .black := by
  unfold chunkKinds
  by_cases hblack : e.foreground = .black
  · rw [if_neg (not_not_intro hblack), List.append_nil]
    refine iff_of_false (fun hmem => ?_) (not_not_intro hblack)
    split at hmem
    · exact absurd hmem (by decide)
    · exact absurd hmem (by decide)
  · rw [if_pos hblack]
    exact iff_of_true (List.mem_append_right _ (List.mem_singleton_self _)) hblack

end Encoder

/-- Bytes which begin with the magic bytes, a natural and as many chunks as it
    says, which have these kinds. -/
def Framed (kinds : List UInt32) (bytes : List UInt8) : Prop :=
  ∃ declared count chunks body, bytes = magic ++ declared ++ chunks.flatten ++ body ∧
    natural declared = .ok (count, []) ∧ count.toNat = chunks.length ∧
    List.Forall₂ IsChunk kinds chunks

/-! ## §3. What the header is read as. -/

/-- The square with the origin in its center, by half its side. -/
def Bounds.square (half : Scalar) : Bounds := ⟨-half, -half, half, half⟩

/-- Rectangles whose coordinates compare equal. -/
theorem Bounds.beq_of {a b : Bounds} (hminX : (a.minX == b.minX) = true)
    (hminY : (a.minY == b.minY) = true) (hmaxX : (a.maxX == b.maxX) = true)
    (hmaxY : (a.maxY == b.maxY) = true) : (a == b) = true := by
  show (a.minX == b.minX && (a.minY == b.minY && (a.maxX == b.maxX && a.maxY == b.maxY))) = true
  rw [hminX, hminY, hmaxX, hmaxY]
  rfl

namespace Encoder

/-- The view box which is written is read as a square. -/
theorem bounds_square {e : Encoder} (h : e.outputSize.isNaN = false) :
    (e.bounds == .square (quantizeCoordinate (e.outputSize / 2.0))) = true := by
  have hhalf := Scalar.isNaN_half h
  have hq := isNaN_quantizeCoordinate hhalf
  have hhigh := beq_of_agrees (recoverCoordinate_agrees (e.outputSize / 2.0)) hq
  have hlow : (recoverCoordinate (-(e.outputSize / 2.0)) ==
      -quantizeCoordinate (e.outputSize / 2.0)) = true := by
    refine beq_of_agrees ?_ (by rw [Scalar.isNaN_neg]; exact hq)
    rw [← quantizeCoordinate_neg hhalf]
    exact recoverCoordinate_agrees _
  exact Bounds.beq_of hlow hlow hhigh hhigh

/-- The view box which is not written is the one the reader assumes. -/
theorem default_square {e : Encoder} (h : (e.outputSize / 2.0 == 32.0) = true) :
    (Bounds.default == .square (quantizeCoordinate (e.outputSize / 2.0))) = true := by
  have hhalf : e.outputSize / 2.0 = 32.0 :=
    Scalar.Agrees.eq (.inl h) (by decide +kernel)
  rw [hhalf]
  decide +kernel

/-- The view box of the metadata. -/
theorem viewBoxOf_eq (e : Encoder) : Content.viewBoxOf (e.sections.map Prod.snd) =
    if e.outputSize / 2.0 == 32.0 then .default else e.bounds := by
  unfold sections bne defaultHalfSize
  -- a palette, if there is one, does not count
  by_cases hblack : e.foreground = .black
  · rw [if_neg (not_not_intro hblack)]
    cases e.outputSize / 2.0 == 32.0 <;> rfl
  · rw [if_pos hblack]
    cases e.outputSize / 2.0 == 32.0 <;> rfl

/-- The palette of the metadata. -/
theorem paletteOf_eq (e : Encoder) : Content.paletteOf (e.sections.map Prod.snd) =
    if e.foreground = .black then [] else [(DirectColor.ofRgba e.foreground).bytes] := by
  unfold sections
  by_cases hblack : e.foreground = .black
  · rw [if_pos hblack, if_neg (not_not_intro hblack)]
    split <;> rfl
  · rw [if_neg hblack, if_pos hblack]
    split <;> rfl

/-- An icon is framed by its header. -/
theorem encode_framed {e : Encoder} {d : Drawing} {bytes : List UInt8} (h : e.encode d = .ok bytes) :
    Framed e.chunkKinds bytes := by
  obtain ⟨ss, -, -, hbytes⟩ := encode_eq_ok_iff.1 h
  have hcount : e.chunks.length < 128 := by
    unfold chunks
    split <;> split <;> simp
  refine ⟨_, _, e.chunks, _, hbytes, (natural_reads hcount).alone, ?_, e.chunks_areChunks⟩
  rw [UInt32.toNat_ofNat']
  omega

/-- **The header is read back**: a square view box, whose half side is half the
    output size as a coordinate and which stands in a chunk unless that is 32,
    and a palette with the direct form of the foreground, which stands in a chunk
    unless that is black.  Every chunk is as long as it says, and there are as
    many as the header says. -/
theorem header_decoded {e : Encoder} {d : Drawing} {bytes : List UInt8}
    (hsize : e.outputSize.isNaN = false) (h : e.encode d = .ok bytes) :
    ∃ content, decode bytes = .ok content ∧
      (content.viewBox == .square (quantizeCoordinate (e.outputSize / 2.0))) = true ∧
      (content.palette = [] ↔ e.foreground = .black) ∧
      (e.foreground ≠ .black → content.palette = [(DirectColor.ofRgba e.foreground).bytes]) ∧
      Framed e.chunkKinds bytes ∧
      (viewBoxKind ∈ e.chunkKinds ↔ (e.outputSize / 2.0 == 32.0) = false) ∧
      (viewBoxKind ∉ e.chunkKinds → content.viewBox = .default) ∧
      (paletteKind ∈ e.chunkKinds ↔ e.foreground ≠ .black) := by
  obtain ⟨css, -, -, hread⟩ := readParts_encode h
  refine ⟨_, by unfold decode; rw [hread], ?_, ?_, ?_, encode_framed h, e.viewBoxKind_mem, ?_,
    e.paletteKind_mem⟩
  · show (Content.viewBoxOf _ == _) = true
    rw [viewBoxOf_eq]
    split
    · next hdefault => exact default_square hdefault
    · exact bounds_square hsize
  · show Content.paletteOf _ = [] ↔ _
    rw [paletteOf_eq]
    split
    · next hblack => exact iff_of_true rfl hblack
    · next hblack => exact iff_of_false (List.cons_ne_nil _ _) hblack
  · intro hne
    show Content.paletteOf _ = _
    rw [paletteOf_eq, if_neg hne]
  · intro hnone
    show Content.viewBoxOf _ = _
    rw [viewBoxKind_mem, Bool.not_eq_false] at hnone
    rw [viewBoxOf_eq, hnone, if_pos rfl]

/-- An icon of twice the usual size, in a color of its own. -/
def wideEncoder : Encoder := ⟨128.0, ⟨0x80, 0x40, 0x20, 0xc0⟩⟩

theorem header_decoded_wideEncoder :
    ∃ bytes content, wideEncoder.encode plainDrawing = .ok bytes ∧ decode bytes = .ok content ∧
      (content.viewBox == ⟨-64.0, -64.0, 64.0, 64.0⟩) = true ∧
      content.palette = [[0x60, 0x30, 0x18, 0xc0]] ∧
      Framed [viewBoxKind, paletteKind] bytes ∧
      coordinateSize (-64.0) = 1 ∧ coordinateSize 64.0 = 2 := by
  obtain ⟨bytes, hbytes⟩ : ∃ bytes, wideEncoder.encode plainDrawing = .ok bytes :=
    exists_encode (by decide +kernel)
  obtain ⟨content, hdecode, hbox, -, hpalette, hframed, -⟩ :=
    header_decoded (by decide +kernel) hbytes
  have hhalf : quantizeCoordinate (wideEncoder.outputSize / 2.0) = 64.0 := by decide +kernel
  rw [hhalf] at hbox
  refine ⟨bytes, content, hbytes, hdecode, hbox, ?_, ?_, by decide +kernel, by decide +kernel⟩
  · rw [hpalette (by decide)]
    decide
  · rwa [show chunkKinds wideEncoder = [viewBoxKind, paletteKind] by decide +kernel] at hframed

end Encoder

end Icon

end VectorIcon

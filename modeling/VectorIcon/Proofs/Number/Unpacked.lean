/-
  VectorIcon.Proofs.Number.Unpacked
  ────────────────────────────────
  **BIT FIELDS, AND THE FORM ARITHMETIC WORKS IN.**

  Arithmetic unpacks its operands into sign, mantissa and exponent and packs its
  answer again.  A number unpacks as its three fields say (`unpack_eq`); packing
  undoes unpacking (`pack_unpack`), and unpacking undoes packing for every
  mantissa and exponent of single precision (`unpack_pack`), while what is too
  great becomes an infinity (`unpack_pack_overflow`).
-/
import VectorIcon.Number.Scalar
import VectorIcon.Proofs.Number.Nearest

namespace VectorIcon

open Float.Model Float.Model.UnpackedFloat

/-! ## §1. Fields. -/

/-- The sign of a sign bit. -/
def signOf (negative : Bool) : Sign := if negative then .negative else .positive

/-- The number which sign, exponent field and fraction field stand for. -/
def ofFields (s : Sign) (exponent fraction : ℕ) : UnpackedFloat :=
  if exponent = 255 then (if fraction = 0 then .infinity s else .notANumber)
  else if exponent = 0 then signedMantissa s fraction (-149)
  else signedMantissa s (2 ^ 23 + fraction) (exponent - 150)

/-- Finite numbers with equal mantissa and exponent are equal. -/
theorem finite_eq (s : Sign) {m m' : ℕ} {e e' : ℤ} {hm : 0 < m} {hm' : 0 < m'} (hmm : m = m')
    (hee : e = e') : UnpackedFloat.finite s m e hm = .finite s m' e' hm' := by
  subst hmm hee
  rfl

/-- What a bit pattern unpacks to depends on its fields alone. -/
theorem unpack_eq_ofFields (b : BitVec 32) :
    UnpackedFloat.unpack .binary32 b =
      ofFields (Sign.ofBitVec (@unpackSign .binary32 b))
        (@unpackExponent .binary32 b).toNat (@unpackMantissa .binary32 b).toNat := by
  have hf : @unpackMantissa .binary32 b = 0#_ ↔
      (@unpackMantissa .binary32 b).toNat = 0 := by rw [← BitVec.toNat_inj]; rfl
  have hlast : @unpackExponent .binary32 b = -1#_ ↔
      (@unpackExponent .binary32 b).toNat = 255 := by rw [← BitVec.toNat_inj]; rfl
  have hfirst : @unpackExponent .binary32 b = 0#_ ↔
      (@unpackExponent .binary32 b).toNat = 0 := by rw [← BitVec.toNat_inj]; rfl
  unfold UnpackedFloat.unpack ofFields signedMantissa
  dsimp only
  by_cases h255 : (@unpackExponent .binary32 b).toNat = 255
  · rw [if_pos (hlast.2 h255), if_pos h255]
    by_cases h0 : (@unpackMantissa .binary32 b).toNat = 0
    · rw [if_pos (hf.2 h0), if_pos h0]
    · rw [if_neg (mt hf.1 h0), if_neg h0]
  · rw [if_neg (mt hlast.1 h255), if_neg h255]
    by_cases h0 : (@unpackExponent .binary32 b).toNat = 0
    · rw [if_pos (hfirst.2 h0), if_pos h0]
      by_cases hm : (@unpackMantissa .binary32 b).toNat = 0
      · rw [dif_pos (hf.2 hm), dif_pos hm]
      · rw [dif_neg (mt hf.1 hm), dif_neg hm]
        refine finite_eq _ rfl ?_
        rw [h0]
        rfl
    · have hm : (1#1 ++ @unpackMantissa .binary32 b).toNat =
          2 ^ 23 + (@unpackMantissa .binary32 b).toNat := by
        rw [BitVec.toNat_append,
          ← Nat.shiftLeft_add_eq_or_of_lt (@unpackMantissa .binary32 b).isLt]
        rfl
      rw [if_neg (mt hfirst.1 h0), if_neg h0, dif_neg (by omega)]
      exact finite_eq _ hm rfl

section Bits

variable (b : UInt32)

theorem unpackMantissa_toNat :
    (@unpackMantissa .binary32 b.toBitVec).toNat = b.toNat % 0x800000 := by
  unfold unpackMantissa
  rw [BitVec.toNat_cast, BitVec.extractLsb_toNat]
  rfl

theorem unpackExponent_toNat :
    (@unpackExponent .binary32 b.toBitVec).toNat = b.toNat / 0x800000 % 256 := by
  unfold unpackExponent
  rw [BitVec.toNat_cast, BitVec.extractLsb_toNat, Nat.shiftRight_eq_div_pow]
  rfl

theorem unpackSign_toNat :
    (@unpackSign .binary32 b.toBitVec).toNat = b.toNat / 0x80000000 % 2 := by
  unfold unpackSign
  rw [BitVec.toNat_cast, BitVec.extractLsb_toNat, Nat.shiftRight_eq_div_pow]
  rfl

/-- The sign bit decides between the halves of the range. -/
theorem unpackSign_signOf :
    Sign.ofBitVec (@unpackSign .binary32 b.toBitVec) =
      signOf (decide (0x80000000 ≤ b.toNat)) := by
  have hb := b.toNat_lt
  have hzero : @unpackSign .binary32 b.toBitVec = 0#1 ↔ ¬ 0x80000000 ≤ b.toNat := by
    rw [← BitVec.toNat_inj, unpackSign_toNat b]
    show b.toNat / 0x80000000 % 2 = 0 ↔ _
    omega
  unfold Sign.ofBitVec signOf
  by_cases h : 0x80000000 ≤ b.toNat
  · rw [if_neg (fun hz => hzero.1 hz h), if_pos (decide_eq_true h)]
  · rw [if_pos (hzero.2 h), if_neg (by rwa [decide_eq_true_eq])]

/-- **A bit pattern unpacks as its fields say.** -/
theorem unpack_bits :
    UnpackedFloat.unpack .binary32 b.toBitVec =
      ofFields (signOf (decide (0x80000000 ≤ b.toNat))) (b.toNat / 0x800000 % 256)
        (b.toNat % 0x800000) := by
  rw [unpack_eq_ofFields, unpackSign_signOf, unpackExponent_toNat, unpackMantissa_toNat]

/-- A bit pattern is its three fields. -/
theorem bits_toNat :
    b.toNat = (signOf (decide (0x80000000 ≤ b.toNat))).toBitVec.toNat * 0x80000000 +
      b.toNat / 0x800000 % 256 * 0x800000 + b.toNat % 0x800000 := by
  have hb := b.toNat_lt
  have hsign : (signOf (decide (0x80000000 ≤ b.toNat))).toBitVec.toNat = b.toNat / 0x80000000 := by
    unfold signOf
    by_cases h : 0x80000000 ≤ b.toNat
    · rw [if_pos (decide_eq_true h)]
      show 1 = _
      omega
    · rw [if_neg (by rwa [decide_eq_true_eq])]
      show 0 = _
      omega
  omega

end Bits

namespace Scalar

/-- The form a number unpacks to. -/
def unpacked (x : Scalar) : UnpackedFloat := x.toModel.unpack

/-- **A number unpacks as its fields say.** -/
theorem unpacked_eq (x : Scalar) :
    x.unpacked = ofFields (signOf x.isNegative) x.biasedExponent x.fractionField :=
  unpack_bits x.toBits

theorem biasedExponent_lt (x : Scalar) : x.biasedExponent < 256 := Nat.mod_lt _ (by norm_num)

theorem fractionField_lt (x : Scalar) : x.fractionField < 2 ^ 23 := Nat.mod_lt _ (by norm_num)

end Scalar

/-! ## §2. Packing. -/

/-- Mantissa and exponent, if there are any, are those of single precision. -/
def IsSingle : UnpackedFloat → Prop
  | .finite _ m e _ => Fits m e ∧ e ≤ 104
  | _ => True

theorem isSingle_signedMantissa (s : Sign) {m : ℕ} {e : ℤ} (h : Fits m e) (he : e ≤ 104) :
    IsSingle (signedMantissa s m e) := by
  rcases m.eq_zero_or_pos with rfl | hm
  · exact trivial
  · rw [signedMantissa_pos s e hm]
    exact ⟨h, he⟩

theorem isSingle_ofFields (s : Sign) {e f : ℕ} (he : e < 256) (hf : f < 2 ^ 23) :
    IsSingle (ofFields s e f) := by
  unfold ofFields
  by_cases h255 : e = 255
  · rw [if_pos h255]
    split <;> exact trivial
  · rw [if_neg h255]
    by_cases h0 : e = 0
    · rw [if_pos h0]
      exact isSingle_signedMantissa _ ⟨by omega, le_refl _, .inr rfl⟩ (by norm_num)
    · rw [if_neg h0]
      exact isSingle_signedMantissa _ ⟨by omega, by omega, .inl (by omega)⟩ (by omega)

/-- Every number unpacks to mantissa and exponent of single precision. -/
theorem Scalar.isSingle (x : Scalar) : IsSingle x.unpacked := by
  rw [x.unpacked_eq]
  exact isSingle_ofFields _ x.biasedExponent_lt x.fractionField_lt

theorem packComponents_toNat (s : Sign) (e : BitVec 8) (f : BitVec 23) :
    (packComponents .binary32 s e f).toNat =
      s.toBitVec.toNat * 0x80000000 + e.toNat * 0x800000 + f.toNat := by
  show (s.toBitVec ++ e ++ f).toNat = _
  rw [BitVec.toNat_append, ← Nat.shiftLeft_add_eq_or_of_lt f.isLt, BitVec.toNat_append,
    ← Nat.shiftLeft_add_eq_or_of_lt e.isLt, Nat.shiftLeft_eq, Nat.shiftLeft_eq]
  ring

theorem unpackSign_packComponents (s : Sign) (e : BitVec 8) (f : BitVec 23) :
    Sign.ofBitVec (@unpackSign .binary32 (packComponents .binary32 s e f)) = s := by
  have he := e.isLt
  have hf := f.isLt
  have hbit : @unpackSign .binary32 (packComponents .binary32 s e f) = s.toBitVec := by
    have hs := s.toBitVec.isLt
    rw [← BitVec.toNat_inj]
    unfold unpackSign
    rw [BitVec.toNat_cast, BitVec.extractLsb_toNat, Nat.shiftRight_eq_div_pow, packComponents_toNat]
    show (s.toBitVec.toNat * 0x80000000 + e.toNat * 0x800000 + f.toNat) / 0x80000000 % 2 = _
    omega
  rw [hbit]
  cases s <;> rfl

/-- Packed fields unpack to the fields. -/
theorem unpack_packComponents (s : Sign) (e : BitVec 8) (f : BitVec 23) :
    UnpackedFloat.unpack .binary32 (packComponents .binary32 s e f) = ofFields s e.toNat f.toNat := by
  rw [unpack_eq_ofFields, unpackSign_packComponents, unpackExponent_packComponents,
    unpackMantissa_packComponents]

/-- The fields of a finite number. -/
theorem pack_finite (s : Sign) {m : ℕ} {e : ℤ} (hm : 0 < m) :
    UnpackedFloat.pack .binary32 (.finite s m e hm) =
      if 256 ≤ (e + 150).toNat + 1 then packedInfinity .binary32 s
      else if m.log2 + 1 = 24 then
        packComponents .binary32 s (BitVec.ofNat 8 (e + 150).toNat) (BitVec.ofNat 23 m)
      else packComponents .binary32 s (0#8) (BitVec.ofNat 23 m) := by
  have hbias : (e + ((127 : ℕ) : ℤ) + ((23 : ℕ) : ℤ)).toNat = (e + 150).toNat := by
    congr 1
    omega
  rw [← hbias]
  rfl

/-- **Numbers of single precision are packed without loss.** -/
theorem unpack_pack {u : UnpackedFloat} (h : IsSingle u) : (Float32.Model.pack u).unpack = u := by
  show UnpackedFloat.unpack .binary32 (UnpackedFloat.pack .binary32 u) = u
  cases u with
  | infinity s =>
    show UnpackedFloat.unpack .binary32 (packComponents .binary32 s (-1#_) 0) = _
    rw [unpack_packComponents]
    rfl
  | notANumber => rfl
  | zero s =>
    show UnpackedFloat.unpack .binary32 (packComponents .binary32 s 0 0) = _
    rw [unpack_packComponents]
    rfl
  | finite s m e hm =>
    obtain ⟨⟨hlt, hge, hnormal⟩, hle⟩ := h
    rw [pack_finite, if_neg (by omega)]
    by_cases hbig : 2 ^ 23 ≤ m
    · have hlog : m.log2 = 23 := (Nat.log2_eq_iff hm.ne').2 ⟨hbig, hlt⟩
      rw [if_pos (by omega), unpack_packComponents]
      have he : (BitVec.ofNat 8 (e + 150).toNat).toNat = (e + 150).toNat := by
        rw [BitVec.toNat_ofNat]
        omega
      have hf : 2 ^ 23 + (BitVec.ofNat 23 m).toNat = m := by
        rw [BitVec.toNat_ofNat]
        omega
      unfold ofFields signedMantissa
      rw [he, if_neg (by omega), if_neg (by omega), dif_neg (by omega)]
      exact finite_eq _ hf (by omega)
    · have hsmall : m < 2 ^ 23 := by omega
      have hlog : m.log2 < 23 := (Nat.log2_lt hm.ne').2 hsmall
      obtain rfl : e = -149 := hnormal.resolve_left hbig
      rw [if_neg (by omega), unpack_packComponents]
      have hf : (BitVec.ofNat 23 m).toNat = m := by
        rw [BitVec.toNat_ofNat]
        omega
      unfold ofFields signedMantissa
      rw [hf, if_neg (by decide), if_pos (by decide), dif_neg hm.ne']

/-- What is too great becomes an infinity. -/
theorem unpack_pack_overflow (s : Sign) {m : ℕ} {e : ℤ} (hm : 0 < m) (he : 104 < e) :
    (Float32.Model.pack (.finite s m e hm)).unpack = .infinity s := by
  show UnpackedFloat.unpack .binary32 (UnpackedFloat.pack .binary32 (.finite s m e hm)) = _
  rw [pack_finite, if_pos (by omega)]
  exact unpack_pack (u := .infinity s) trivial

/-- Fields which are not those of a NaN are packed as they are. -/
theorem pack_ofFields (s : Sign) {e f : ℕ} (he : e < 256) (hf : f < 2 ^ 23) (hnan : e = 255 → f = 0) :
    UnpackedFloat.pack .binary32 (ofFields s e f) =
      packComponents .binary32 s (BitVec.ofNat 8 e) (BitVec.ofNat 23 f) := by
  unfold ofFields signedMantissa
  by_cases h255 : e = 255
  · rw [if_pos h255, if_pos (hnan h255), h255, hnan h255]
    rfl
  · rw [if_neg h255]
    by_cases h0 : e = 0
    · rw [if_pos h0]
      by_cases hzero : f = 0
      · rw [dif_pos hzero, h0, hzero]
        rfl
      · have hlog : f.log2 < 23 := (Nat.log2_lt hzero).2 hf
        rw [dif_neg hzero, h0, pack_finite, if_neg (by decide), if_neg (by omega)]
    · have hlog : (2 ^ 23 + f).log2 = 23 :=
        (Nat.log2_eq_iff (by omega)).2 ⟨Nat.le_add_right _ _, by omega⟩
      rw [if_neg h0, dif_neg (by omega), pack_finite,
        show ((e : ℤ) - 150 + 150).toNat = e by omega, if_neg (by omega), if_pos (by omega)]
      congr 1
      rw [← BitVec.toNat_inj, BitVec.toNat_ofNat, BitVec.toNat_ofNat]
      show (2 ^ 23 + f) % 2 ^ 23 = f % 2 ^ 23
      omega

/-- Bits which are not those of a NaN are packed and unpacked without change. -/
theorem pack_unpack_bits (b : UInt32)
    (hnan : b.toNat / 0x800000 % 256 = 255 → b.toNat % 0x800000 = 0) :
    UnpackedFloat.pack .binary32 (UnpackedFloat.unpack .binary32 b.toBitVec) = b.toBitVec := by
  have he : b.toNat / 0x800000 % 256 < 256 := Nat.mod_lt _ (by norm_num)
  have hf : b.toNat % 0x800000 < 2 ^ 23 := Nat.mod_lt _ (by norm_num)
  rw [unpack_bits, pack_ofFields _ he hf hnan, ← BitVec.toNat_inj, packComponents_toNat,
    BitVec.toNat_ofNat, BitVec.toNat_ofNat, Nat.mod_eq_of_lt he, Nat.mod_eq_of_lt hf]
  exact (bits_toNat b).symm

/-- The NaN among the bit patterns. -/
theorem pack_unpack_nan (b : UInt32) (he : b.toNat / 0x800000 % 256 = 255)
    (hf : b.toNat % 0x800000 ≠ 0) :
    UnpackedFloat.pack .binary32 (UnpackedFloat.unpack .binary32 b.toBitVec) =
      packedNaN .binary32 := by
  rw [unpack_bits]
  unfold ofFields
  rw [if_pos he, if_neg hf]
  rfl

namespace Scalar

/-- **Packing undoes unpacking.** -/
theorem pack_unpack (x : Scalar) : Float32.Model.pack x.unpacked = x.toModel := by
  have hbits : UnpackedFloat.pack .binary32 x.unpacked = x.toBits.toBitVec := by
    by_cases hnan : x.toBits.toNat / 0x800000 % 256 = 255 → x.toBits.toNat % 0x800000 = 0
    · exact pack_unpack_bits x.toBits hnan
    · obtain ⟨he, hf⟩ := Classical.not_imp.1 hnan
      have hvalid := x.toModel.valid.eq_packedNaN
        (by rw [← BitVec.toNat_inj, unpackExponent_toNat]; exact he)
        (by rw [Ne, ← BitVec.toNat_inj, unpackMantissa_toNat]; exact hf)
      exact (pack_unpack_nan x.toBits he hf).trans hvalid.symm
  cases hx : x.toModel with
  | mk bits valid =>
    unfold Float32.Model.pack
    congr 1
    rw [hbits]
    show UInt32.ofBitVec x.toModel.toBits.toBitVec = _
    rw [hx]

theorem unpacked_injective {x y : Scalar} (h : x.unpacked = y.unpacked) : x = y := by
  have hmodel : x.toModel = y.toModel := by rw [← pack_unpack, h, pack_unpack]
  cases x
  cases y
  exact congrArg Float32.ofModel hmodel

/-- A number made of bits unpacks as their fields say. -/
theorem unpacked_ofBits (b : UInt32) :
    unpacked (Float32.ofBits b) =
      ofFields (signOf (decide (0x80000000 ≤ b.toNat))) (b.toNat / 0x800000 % 256)
        (b.toNat % 0x800000) := by
  show (Float32.Model.pack (UnpackedFloat.unpack .binary32 b.toBitVec)).unpack = _
  rw [unpack_bits]
  exact unpack_pack (isSingle_ofFields _ (Nat.mod_lt _ (by norm_num)) (Nat.mod_lt _ (by norm_num)))

/-- A number made of bits has these bits, or it is NaN. -/
theorem toBits_ofBits (b : UInt32) :
    (Float32.ofBits b).toBits = b ∨ (Float32.ofBits b).toBits = 0x7fc00000 := by
  show UInt32.ofBitVec (UnpackedFloat.pack .binary32 (UnpackedFloat.unpack .binary32 b.toBitVec)) = b ∨
    UInt32.ofBitVec (UnpackedFloat.pack .binary32 (UnpackedFloat.unpack .binary32 b.toBitVec)) = _
  by_cases hnan : b.toNat / 0x800000 % 256 = 255 → b.toNat % 0x800000 = 0
  · left
    rw [pack_unpack_bits b hnan]
  · right
    obtain ⟨he, hf⟩ := Classical.not_imp.1 hnan
    rw [pack_unpack_nan b he hf]
    rfl

end Scalar

end VectorIcon

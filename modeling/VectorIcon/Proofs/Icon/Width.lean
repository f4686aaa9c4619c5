/-
  VectorIcon.Proofs.Icon.Width
  ────────────────────────────────
  **A COORDINATE IS WRITTEN AS NARROW AS ANY WORD CAN MEAN IT.**

  A word of one byte means an integer of `[-64, 64)`, whatever its bits, and a
  word of two bytes a multiple of 1/64 in `[-128, 128)`.  Conversely every number
  of these grids is written in the narrower width, and read back as itself.  No
  word of one or two bytes therefore means a number which is written in more:

      coordinateSize_narrowest — how many bytes a coordinate takes, told by the
                                 words which could mean it and by its value

  Infinities and NaN are on no grid and take four bytes; minus zero is written as
  zero, which compares equal.
-/
import VectorIcon.Proofs.Icon.Quantize

namespace VectorIcon

namespace Icon

/-! ## §1. What narrow words mean. -/

/-- One byte holds seven bits beside the width. -/
theorem payload_one_lt (b : UInt8) : (Word.payload (.one b)).toNat < 128 := by
  have hb := b.toNat_lt
  rw [toNat_payload_one]
  omega

/-- Two bytes hold fourteen bits beside the width. -/
theorem payload_two_lt (w : UInt16) : (Word.payload (.two w)).toNat < 16384 := by
  have hw := w.toNat_lt
  rw [toNat_payload_two]
  omega

theorem coordinate_one (b : UInt8) : IsShortInteger (Word.coordinate (.one b)) := by
  have hpayload := payload_one_lt b
  generalize hk : (Word.payload (.one b)).toNat = k at hpayload
  obtain ⟨hfinite, hvalue⟩ := lowered_one (n := (k : ℤ) - 64) (by rw [abs_lt]; omega)
  rw [sub_add_cancel] at hfinite hvalue
  show IsShortInteger (Scalar.ofInt (Word.payload (.one b)).toNat - 64.0)
  rw [hk]
  exact ⟨hfinite, (k : ℤ) - 64, hvalue, by omega, by omega⟩

theorem coordinate_two (w : UInt16) : IsShortFraction (Word.coordinate (.two w)) := by
  have hpayload := payload_two_lt w
  generalize hk : (Word.payload (.two w)).toNat = k at hpayload
  obtain ⟨hfinite, hvalue⟩ := lowered_two (n := (k : ℤ) - 8192) (by rw [abs_lt]; omega)
  rw [sub_add_cancel] at hfinite hvalue
  show IsShortFraction ((Scalar.ofInt (Word.payload (.two w)).toNat - 8192.0) / 64.0)
  rw [hk]
  exact ⟨hfinite, (k : ℤ) - 8192, hvalue, by omega, by omega⟩

/-- Integers of the range of one byte are multiples of 1/64 as well. -/
theorem IsShortInteger.fraction {x : Scalar} (h : IsShortInteger x) : IsShortFraction x := by
  obtain ⟨hfinite, n, hn, hlow, hhigh⟩ := h
  refine ⟨hfinite, n * 64, ?_, by omega, by omega⟩
  rw [hn]
  push_cast
  ring

/-- Numbers which compare equal are on the same grids. -/
theorem IsShortInteger.agrees {x y : Scalar} (h : IsShortInteger y) (hyx : y.Agrees x) :
    IsShortInteger x := by
  obtain ⟨hfinite, n, hn, hrange⟩ := h
  exact ⟨hyx.isFinite ▸ hfinite, n, hyx.value ▸ hn, hrange⟩

theorem IsShortFraction.agrees {x y : Scalar} (h : IsShortFraction y) (hyx : y.Agrees x) :
    IsShortFraction x := by
  obtain ⟨hfinite, n, hn, hrange⟩ := h
  exact ⟨hyx.isFinite ▸ hfinite, n, hyx.value ▸ hn, hrange⟩

/-! ## §2. Words which are read. -/

/-- Some word of as many bytes is read as a coordinate which equals the number. -/
def HasWord (size : ℕ) (x : Scalar) : Prop :=
  ∃ bs y, bs.length = size ∧ Icon.coordinate bs = .ok (y, []) ∧ (y == x) = true

/-- A word which takes all bytes has as many. -/
theorem size_of_word {bs : List UInt8} {w : Word} (h : word bs = .ok (w, [])) :
    w.size = bs.length := by
  unfold word at h
  split at h
  · cases h
  · split at h
    · cases h
      rfl
    · split at h
      · split at h
        · cases h
          rfl
        · cases h
      · split at h
        · cases h
          rfl
        · cases h

/-- What is read from all bytes is what a word of as many bytes means. -/
theorem word_of_read {α : Type} (f : Word → α) {bs : List UInt8} {y : α}
    (h : (do return f (← Icon.word) : Reading α) bs = .ok (y, [])) :
    ∃ w : Word, w.size = bs.length ∧ f w = y := by
  obtain ⟨w, t, hw, hy⟩ := Scan.bind_ok.1 h
  obtain ⟨rfl, rfl⟩ := Scan.pure_ok.1 hy
  exact ⟨w, size_of_word hw, rfl⟩

theorem HasWord.word {size : ℕ} {x : Scalar} (h : HasWord size x) :
    ∃ w : Word, w.size = size ∧ w.coordinate.Agrees x := by
  obtain ⟨bs, y, rfl, hread, hyx⟩ := h
  obtain ⟨w, hsize, rfl⟩ := word_of_read Word.coordinate hread
  exact ⟨w, hsize, .inl hyx⟩

/-- **Only integers have a word of one byte.** -/
theorem HasWord.integer {x : Scalar} (h : HasWord 1 x) : IsShortInteger x := by
  obtain ⟨w, hsize, hagrees⟩ := h.word
  cases w with
  | one b => exact (coordinate_one b).agrees hagrees
  | two | four => cases hsize

/-- **Only multiples of 1/64 have a word of two bytes.** -/
theorem HasWord.fraction {x : Scalar} (h : HasWord 2 x) : IsShortFraction x := by
  obtain ⟨w, hsize, hagrees⟩ := h.word
  cases w with
  | two w => exact (coordinate_two w).agrees hagrees
  | one | four => cases hsize

/-- A number of either grid is read back as itself. -/
theorem IsShortFraction.read {x : Scalar} (h : IsShortFraction x) :
    ∃ y, Icon.coordinate (coordinateBytes x) = .ok (y, []) ∧ (y == x) = true := by
  obtain ⟨hfinite, n, hn, hlow, hhigh⟩ := h
  have hagrees := recoverCoordinate_agrees x
  rw [quantizeCoordinate_grid hfinite hn hlow hhigh] at hagrees
  refine ⟨recoverCoordinate x, (coordinate_reads x).alone, ?_⟩
  exact (Scalar.beq_iff (hagrees.isFinite.trans hfinite) hfinite).2 hagrees.value

/-! ## §3. The width which is written. -/

/-- The width of a coordinate follows the finest grid which it needs. -/
theorem coordinateSize_cases (x : Scalar) :
    IsShortInteger x ∧ coordinateSize x = 1 ∨
      ¬IsShortInteger x ∧ IsShortFraction x ∧ coordinateSize x = 2 ∨
      ¬IsShortInteger x ∧ ¬IsShortFraction x ∧ coordinateSize x = 4 := by
  unfold coordinateSize Word.ofCoordinate
  simp only
  by_cases hone : IsShortInteger x
  · rw [if_pos ((isShortInteger_iff x).2 hone)]
    exact .inl ⟨hone, rfl⟩
  · rw [if_neg (mt (isShortInteger_iff x).1 hone)]
    by_cases htwo : IsShortFraction x
    · rw [if_pos ((isShortFraction_iff x).2 htwo)]
      exact .inr (.inl ⟨hone, htwo, rfl⟩)
    · rw [if_neg (mt (isShortFraction_iff x).1 htwo)]
      exact .inr (.inr ⟨hone, htwo, rfl⟩)

/-- A number of either grid has a word of the width in which it is written. -/
theorem IsShortFraction.hasWord {x : Scalar} (h : IsShortFraction x) : HasWord (coordinateSize x) x := by
  obtain ⟨y, hread, hyx⟩ := h.read
  exact ⟨_, y, Word.length_bytes _, hread, hyx⟩

/-- **A coordinate takes the fewest bytes of all words which mean it**: one byte
    if some word of one byte is read as a number equal to it, two bytes if none
    of one byte but some word of two is, and four otherwise.  These are the
    integers of `[-64, 64)`, the other multiples of 1/64 in `[-128, 128)`, and
    all the rest.  What is written in one or two bytes is read back as itself. -/
theorem coordinateSize_narrowest (x : Scalar) :
    (coordinateSize x = 1 ↔ HasWord 1 x) ∧
    (coordinateSize x = 2 ↔ ¬HasWord 1 x ∧ HasWord 2 x) ∧
    (coordinateSize x = 4 ↔ ¬HasWord 1 x ∧ ¬HasWord 2 x) ∧
    (coordinateSize x = 1 ↔ IsShortInteger x) ∧
    (coordinateSize x = 2 ↔ IsShortFraction x ∧ ¬IsShortInteger x) ∧
    (coordinateBytes x).length = coordinateSize x ∧
    (coordinateSize x ≤ 2 → ∃ y, Icon.coordinate (coordinateBytes x) = .ok (y, []) ∧ (y == x) = true) := by
  have hlength : (coordinateBytes x).length = coordinateSize x := Word.length_bytes _
  rcases coordinateSize_cases x with ⟨hone, hsize⟩ | ⟨hone, htwo, hsize⟩ | ⟨hone, htwo, hsize⟩
  · have hword : HasWord 1 x := hsize ▸ hone.fraction.hasWord
    have hread := hone.fraction.read
    simp [hsize, hlength, hword, hone, hread]
  · have hword : HasWord 2 x := hsize ▸ htwo.hasWord
    have hnarrow : ¬HasWord 1 x := mt HasWord.integer hone
    have hread := htwo.read
    simp [hsize, hlength, hword, hnarrow, hone, htwo, hread]
  · have hword : ¬HasWord 2 x := mt HasWord.fraction htwo
    have hnarrow : ¬HasWord 1 x := mt HasWord.integer hone
    simp [hsize, hlength, hword, hnarrow, hone, htwo]

end Icon

end VectorIcon

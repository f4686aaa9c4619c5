/-
  VectorIcon.Proofs.Text.Utf8
  ────────────────────────────────
  **THE BYTES OF A TEXT ARE READ BACK AS THAT TEXT.**

  The bytes of a character begin with its lead byte, which tells how many follow;
  these hold its other bits, and lie in the ranges of the lead byte because the
  form is the shortest and the character is no surrogate
  (`Utf8.character_encodeChar`).  So nothing of a text is replaced when its bytes
  are read (`Utf8.lossy_bytes`).  The characters of one byte are told from all
  others by the first byte (`encodeChar_high`).
-/
import VectorIcon.Text.Range

namespace VectorIcon

namespace Text

namespace Utf8

/-! ## §1. First bytes. -/

theorem toNat_byte {n : Nat} (h : n < 256) : (UInt8.ofNat n).toNat = n := Nat.mod_eq_of_lt h

theorem lead?_one {n : Nat} (h : n < 0x80) : lead? n = some ⟨n, 0, 0x80, 0xbf⟩ := if_pos h

theorem lead?_two {n : Nat} (h : 0xc2 ≤ n) (h' : n < 0xe0) :
    lead? n = some ⟨n - 0xc0, 1, 0x80, 0xbf⟩ := by
  unfold lead?
  rw [if_neg (by omega), if_neg (by omega), if_pos h']

theorem lead?_three {n : Nat} (h : 0xe0 ≤ n) (h' : n < 0xf0) :
    lead? n = some ⟨n - 0xe0, 2, if n = 0xe0 then 0xa0 else 0x80, if n = 0xed then 0x9f else 0xbf⟩ := by
  unfold lead?
  rw [if_neg (by omega), if_neg (by omega), if_neg (by omega), if_pos h']

theorem lead?_four {n : Nat} (h : 0xf0 ≤ n) (h' : n < 0xf5) :
    lead? n = some ⟨n - 0xf0, 3, if n = 0xf0 then 0x90 else 0x80, if n = 0xf4 then 0x8f else 0xbf⟩ := by
  unfold lead?
  rw [if_neg (by omega), if_neg (by omega), if_neg (by omega), if_neg (by omega), if_pos h']

/-! ## §2. Characters. -/

/-- The bits of a byte which follows come after those before it. -/
theorem following_cons {least greatest bits seen count n : Nat} {rest : List UInt8}
    (hleast : least ≤ n) (hgreatest : n ≤ greatest) (hn : n < 256) :
    following least greatest bits seen (count + 1) (UInt8.ofNat n :: rest) =
      following 0x80 0xbf (64 * bits + (n - 0x80)) (seen + 1) count rest := by
  rw [following, toNat_byte hn, if_pos ⟨hleast, hgreatest⟩]

/-- **A character is read from its bytes**, whatever follows. -/
theorem character_encodeChar (c : Char) (rest : List UInt8) :
    ∃ b bs, String.utf8EncodeChar c = b :: bs ∧ character b (bs ++ rest) = .ok (c, rest) := by
  obtain ⟨v, hv⟩ : ∃ v, c.toNat = v := ⟨_, rfl⟩
  have hc : ∀ n, n = v → Char.ofNat n = c := by
    rintro n rfl
    rw [← hv, Char.ofNat_toNat]
  have hvalid : v < 0xd800 ∨ 0xdfff < v ∧ v < 0x110000 := hv ▸ c.valid
  have hval : c.val.toNat = v := hv
  unfold String.utf8EncodeChar
  simp only [hval]
  -- one case for each number of bytes
  split
  · refine ⟨_, _, rfl, ?_⟩
    rw [character, toNat_byte (by omega), lead?_one (by omega)]
    simp only [List.nil_append, following]
    rw [hc v rfl]
  · split
    · refine ⟨_, _, rfl, ?_⟩
      rw [character, toNat_byte (by omega), lead?_two (by omega) (by omega)]
      simp only [List.cons_append, List.nil_append]
      rw [following_cons (by omega) (by omega) (by omega), following]
      simp only
      rw [hc _ (by omega)]
    · split
      · refine ⟨_, _, rfl, ?_⟩
        rw [character, toNat_byte (by omega), lead?_three (by omega) (by omega)]
        simp only [List.cons_append, List.nil_append]
        rw [following_cons (by split <;> omega) (by split <;> omega) (by omega),
          following_cons (by omega) (by omega) (by omega), following]
        simp only
        rw [hc _ (by omega)]
      · refine ⟨_, _, rfl, ?_⟩
        rw [character, toNat_byte (by omega), lead?_four (by omega) (by omega)]
        simp only [List.cons_append, List.nil_append]
        rw [following_cons (by split <;> omega) (by split <;> omega) (by omega),
          following_cons (by omega) (by omega) (by omega),
          following_cons (by omega) (by omega) (by omega), following]
        simp only
        rw [hc _ (by omega)]

/-! ## §3. Texts. -/

/-- **The bytes of a text are read as that text.** -/
theorem lossy_bytes (text : List Char) : lossy (bytes text) = text := by
  induction text with
  | nil => rw [bytes, List.flatMap_nil, lossy]
  | cons c cs ih =>
    obtain ⟨b, bs, hencode, hread⟩ := character_encodeChar c (bytes cs)
    have hbytes : bytes (c :: cs) = b :: (bs ++ bytes cs) := by
      rw [bytes, List.flatMap_cons, hencode]
      rfl
    rw [hbytes, lossy]
    split
    · next heq =>
      rw [hread] at heq
      cases heq
      rw [ih]
    · next heq =>
      rw [hread] at heq
      cases heq
    · next heq =>
      rw [hread] at heq
      cases heq

end Utf8

/-! ## §4. Characters of one byte. -/

theorem encodeChar_ascii {c : Char} (h : c.toNat < 128) :
    String.utf8EncodeChar c = [UInt8.ofNat c.toNat] := by
  have hval : c.val.toNat ≤ 127 := Nat.le_of_lt_succ h
  unfold String.utf8EncodeChar
  simp only
  rw [if_pos hval]
  rfl

theorem ofUInt8_ascii {c : Char} (h : c.toNat < 128) : Char.ofUInt8 (UInt8.ofNat c.toNat) = c := by
  refine Char.toNat_inj.1 ?_
  show (UInt8.ofNat c.toNat).toNat = _
  exact Nat.mod_eq_of_lt (by omega)

/-- The first byte of any other character is that of no character of one byte. -/
theorem encodeChar_high {c : Char} (h : 128 ≤ c.toNat) :
    ∃ b bs, String.utf8EncodeChar c = b :: bs ∧ 128 ≤ (Char.ofUInt8 b).toNat := by
  have hval : c.val.toNat = c.toNat := rfl
  have hbyte : ∀ n, 128 ≤ n → n < 256 → 128 ≤ (Char.ofUInt8 (UInt8.ofNat n)).toNat := by
    intro n hn hlt
    show 128 ≤ (UInt8.ofNat n).toNat
    rwa [Utf8.toNat_byte hlt]
  unfold String.utf8EncodeChar
  simp only [hval]
  rw [if_neg (by omega)]
  split
  · exact ⟨_, _, rfl, hbyte _ (by omega) (by omega)⟩
  · split
    · exact ⟨_, _, rfl, hbyte _ (by omega) (by omega)⟩
    · exact ⟨_, _, rfl, hbyte _ (by omega) (by omega)⟩

end Text

end VectorIcon

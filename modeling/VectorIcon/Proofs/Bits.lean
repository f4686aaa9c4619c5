/-
  VectorIcon.Proofs.Bits
  ────────────────────────────────
  **BITS OF NATURALS.**

  Bits which are joined in disjoint places add up, and a mask of high bits cuts a
  number at a place.
-/
import Mathlib.Algebra.Group.Nat.Defs

namespace Nat

/-- Bits which stand below a multiple add up with it. -/
theorem or_eq_add_of_dvd {n low k : ℕ} (hn : 2 ^ k ∣ n) (hlow : low < 2 ^ k) :
    n ||| low = n + low := by
  obtain ⟨high, rfl⟩ := hn
  exact (two_pow_add_eq_or_of_lt hlow high).symm

/-- Bits in disjoint places add up. -/
theorem or_shiftLeft_eq_add {low high k : ℕ} (h : low < 2 ^ k) :
    low ||| high <<< k = low + high * 2 ^ k := by
  rw [shiftLeft_eq, Nat.or_comm, or_eq_add_of_dvd (Nat.dvd_mul_left _ _) h, Nat.add_comm]

/-- Setting the two lowest bits leaves the remainder three. -/
theorem or_three_mod_four (n : ℕ) : (n ||| 3) % 4 = 3 := by
  rw [show 4 = 2 ^ 2 from rfl, or_mod_two_pow]
  have h : n % 2 ^ 2 < 4 := Nat.mod_lt _ (by decide)
  generalize n % 2 ^ 2 = r at h
  revert h
  revert r
  decide

/-- Setting the two lowest bits does not change what is above them. -/
theorem or_three_div_four (n : ℕ) : (n ||| 3) / 2 ^ 2 = n / 2 ^ 2 := by
  rw [or_div_two_pow]
  exact Nat.or_zero _

/-- A mask of high bits clears the bits below. -/
theorem and_shiftLeft_eq {n k m : ℕ} (h : n < 2 ^ (k + m)) :
    n &&& (2 ^ m - 1) <<< k = n / 2 ^ k * 2 ^ k := by
  rw [← shiftRight_eq_div_pow, ← shiftLeft_eq]
  -- bit by bit: below k both sides are clear, above it they are the bits of n
  apply eq_of_testBit_eq
  intro i
  rw [testBit_and, testBit_shiftLeft, testBit_shiftLeft, testBit_two_pow_sub_one, testBit_shiftRight]
  by_cases hi : k ≤ i
  · rw [decide_eq_true hi, Bool.true_and, Bool.true_and, Nat.add_sub_cancel' hi]
    by_cases hm : i - k < m
    · rw [decide_eq_true hm, Bool.and_true]
    · have hbig : n < 2 ^ i := Nat.lt_of_lt_of_le h (Nat.pow_le_pow_right (by decide) (by omega))
      rw [testBit_lt_two_pow hbig, Bool.false_and]
  · rw [decide_eq_false hi, Bool.false_and, Bool.and_false, Bool.false_and]

end Nat

/-- A word which is shifted, with the bits set from which it was: as many of its
    highest bits are lost. -/
theorem UInt32.toNat_shiftLeft_or (n k bits : UInt32) (hk : k.toNat < 32)
    (hbits : bits.toNat < 2 ^ k.toNat) :
    ((n <<< k) ||| bits).toNat = n.toNat % 2 ^ (32 - k.toNat) * 2 ^ k.toNat + bits.toNat := by
  have hwidth : 2 ^ 32 = 2 ^ (32 - k.toNat) * 2 ^ k.toNat := by
    rw [← Nat.pow_add, Nat.sub_add_cancel (Nat.le_of_lt hk)]
  have hshift : n.toNat * 2 ^ k.toNat % 2 ^ 32 = n.toNat % 2 ^ (32 - k.toNat) * 2 ^ k.toNat := by
    rw [hwidth, Nat.mul_mod_mul_right]
  rw [UInt32.toNat_or, UInt32.toNat_shiftLeft, Nat.mod_eq_of_lt hk, Nat.shiftLeft_eq, hshift,
    Nat.or_eq_add_of_dvd (Nat.dvd_mul_left _ _) hbits]

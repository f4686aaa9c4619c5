/-
  VectorIcon.Proofs.Icon.Color
  ────────────────────────────────
  **DIRECT COLORS MEAN WHAT THEY WERE MADE OF, AND ARE SHORTEST.**

  The four forms of a direct color overlap: an opaque color of five levels has
  all of them, a translucent gray may have one byte, two or four.  Which forms a
  premultiplied color has is told by its components,

      one byte      `oneByte?` finds it        (`oneByte?_iff`)
      two bytes     both halves of every component are the same
                                              (`meaning?_joinHalves`, `isRepeated_of_two`)
      three bytes   it is opaque
      four bytes    always

  and `ofPremultiplied` goes through them in this order.  So it takes a form which
  means the color, and no shorter one does.

  Main result:
    * `ofRgba_shortest`.
-/
import Mathlib.Data.List.GetD
import VectorIcon.Icon.Color

namespace VectorIcon

/-! ## §1. Scaling by alpha. -/

namespace Rgba

/-- A scaled component is at most alpha. -/
theorem scaleByAlpha_le (c alpha : UInt8) : scaleByAlpha c alpha ≤ alpha := by
  have hc := c.toNat_lt
  have halpha := alpha.toNat_lt
  have hproduct : c.toNat * alpha.toNat ≤ 255 * alpha.toNat :=
    Nat.mul_le_mul_right alpha.toNat (by omega)
  unfold scaleByAlpha
  rw [UInt8.le_iff_toNat_le, UInt8.toNat_ofNat']
  omega

end Rgba

namespace Icon

namespace DirectColor

/-! ## §2. Bytes of direct colors. -/

/-- The direct color of one to four bytes. -/
def ofBytes? : List UInt8 → Option DirectColor
  | [i] => some (.one i)
  | [rg, ba] => some (.two rg ba)
  | [r, g, b] => some (.three r g b)
  | [r, g, b, a] => some (.four r g b a)
  | _ => none

/-- The premultiplied color which bytes mean, if they are a direct color. -/
def meaningOf? (bytes : List UInt8) : Option Rgba := (ofBytes? bytes).bind meaning?

theorem ofBytes?_bytes (d : DirectColor) : ofBytes? d.bytes = some d := by
  cases d <;> rfl

theorem bytes_of_ofBytes? {bytes : List UInt8} {d : DirectColor} (h : ofBytes? bytes = some d) :
    d.bytes = bytes := by
  unfold ofBytes? at h
  split at h <;> cases h <;> rfl

theorem meaningOf?_bytes (d : DirectColor) : meaningOf? d.bytes = d.meaning? := by
  rw [meaningOf?, ofBytes?_bytes]
  rfl

/-! ## §3. One byte. -/

/-- The five levels are different. -/
theorem level_injective {i j : Nat} (hi : i < 5) (hj : j < 5) (h : level i = level j) : i = j := by
  have hall : ∀ i < 5, ∀ j < 5, level i = level j → i = j := by decide
  exact hall i hi j hj h

/-- The digit of a component is the place of its level. -/
theorem levelDigit?_iff {x : UInt8} {d : Nat} : levelDigit? x = some d ↔ d < 5 ∧ level d = x := by
  have hlevel {i : Nat} (hi : i < levels.length) : levels[i] = level i :=
    (List.getD_eq_getElem levels 0 hi).symm
  unfold levelDigit?
  rw [List.findIdx?_eq_some_iff_getElem]
  constructor
  · rintro ⟨hd, hx, -⟩
    rw [decide_eq_true_eq, hlevel hd] at hx
    exact ⟨hd, hx⟩
  · rintro ⟨hd, rfl⟩
    refine ⟨hd, by rw [decide_eq_true_eq, hlevel hd], fun j hj => ?_⟩
    rw [decide_eq_true_eq, hlevel (Nat.lt_trans hj hd)]
    exact fun hsame => absurd (level_injective (Nat.lt_trans hj hd) hd hsame) (Nat.ne_of_lt hj)

/-- What a byte below 125 means. -/
theorem meaning?_digits {i : UInt8} (h : i.toNat < 125) : (DirectColor.one i).meaning? =
    some ⟨level (i.toNat / 25), level (i.toNat / 5 % 5), level (i.toNat % 5), 255⟩ :=
  if_pos h

/-- The byte of an opaque color of five levels. -/
theorem oneByte?_digits {i : UInt8} (h : i.toNat < 125) :
    oneByte? ⟨level (i.toNat / 25), level (i.toNat / 5 % 5), level (i.toNat % 5), 255⟩ = some i := by
  have hred : levelDigit? (level (i.toNat / 25)) = some (i.toNat / 25) :=
    levelDigit?_iff.2 ⟨by omega, rfl⟩
  have hgreen : levelDigit? (level (i.toNat / 5 % 5)) = some (i.toNat / 5 % 5) :=
    levelDigit?_iff.2 ⟨by omega, rfl⟩
  have hblue : levelDigit? (level (i.toNat % 5)) = some (i.toNat % 5) :=
    levelDigit?_iff.2 ⟨by omega, rfl⟩
  have hsum : 25 * (i.toNat / 25) + 5 * (i.toNat / 5 % 5) + i.toNat % 5 = i.toNat := by omega
  -- opaque, hence none of the three special colors
  unfold oneByte?
  rw [if_neg (by simp), if_neg (by simp), if_neg (by simp), if_pos rfl, hred, hgreen, hblue]
  show some (UInt8.ofNat (25 * (i.toNat / 25) + 5 * (i.toNat / 5 % 5) + i.toNat % 5)) = some i
  rw [hsum, UInt8.ofNat_toNat]

/-- Three bytes from 125 on mean a color. -/
theorem special_of_meaning? {i : UInt8} {c : Rgba} (hi : ¬i.toNat < 125)
    (h : (DirectColor.one i).meaning? = some c) : i = 125 ∨ i = 126 ∨ i = 127 := by
  have hbyte (n : Nat) (hn : i.toNat = n) : i = UInt8.ofNat n := by
    rw [← hn, UInt8.ofNat_toNat]
  simp only [meaning?, if_neg hi] at h
  split at h
  · next hn => exact .inl (hbyte 125 hn)
  · split at h
    · next hn => exact .inr (.inl (hbyte 126 hn))
    · split at h
      · next hn => exact .inr (.inr (hbyte 127 hn))
      · cases h

/-- The byte which is found means the color. -/
theorem meaning?_of_oneByte? {c : Rgba} {i : UInt8} (h : oneByte? c = some i) :
    (DirectColor.one i).meaning? = some c := by
  unfold oneByte? at h
  split at h
  · next hc => cases h; subst hc; rfl
  · split at h
    · next hc => cases h; subst hc; rfl
    · split at h
      · next hc => cases h; subst hc; rfl
      · split at h
        · next halpha =>
          -- the byte has the three digits of base 5, and each one tells its level
          simp only [Option.bind_eq_bind, Option.bind_eq_some_iff] at h
          obtain ⟨r, hr, g, hg, b, hb, hi⟩ := h
          obtain ⟨hr, hred⟩ := levelDigit?_iff.1 hr
          obtain ⟨hg, hgreen⟩ := levelDigit?_iff.1 hg
          obtain ⟨hb, hblue⟩ := levelDigit?_iff.1 hb
          have hi : i.toNat = 25 * r + 5 * g + b := by
            rw [← Option.some.inj hi, UInt8.toNat_ofNat']
            omega
          have hr' : i.toNat / 25 = r := by omega
          have hg' : i.toNat / 5 % 5 = g := by omega
          have hb' : i.toNat % 5 = b := by omega
          rw [meaning?_digits (by omega), hr', hg', hb', hred, hgreen, hblue, ← halpha]
        · cases h

/-- **The one byte form is found if there is one**, and there is no other. -/
theorem oneByte?_iff {c : Rgba} {i : UInt8} :
    oneByte? c = some i ↔ (DirectColor.one i).meaning? = some c := by
  refine ⟨meaning?_of_oneByte?, fun h => ?_⟩
  by_cases hdigits : i.toNat < 125
  · rw [meaning?_digits hdigits] at h
    obtain rfl := Option.some.inj h
    exact oneByte?_digits hdigits
  · rcases special_of_meaning? hdigits h with rfl | rfl | rfl
    · obtain rfl : (⟨0xc0, 0xc0, 0xc0, 0xc0⟩ : Rgba) = c := Option.some.inj h
      rfl
    · obtain rfl : (⟨0x80, 0x80, 0x80, 0x80⟩ : Rgba) = c := Option.some.inj h
      rfl
    · obtain rfl : (⟨0, 0, 0, 0⟩ : Rgba) = c := Option.some.inj h
      rfl

/-! ## §4. Two bytes. -/

/-- A component with the same halves is its half in both places. -/
theorem isRepeated_iff {x : UInt8} : isRepeated x = true ↔ repeated (x.toNat / 16) = x := by
  have hx := x.toNat_lt
  have hfits : 17 * (x.toNat / 16) < 2 ^ 8 := by omega
  unfold isRepeated repeated
  rw [decide_eq_true_eq, ← UInt8.toNat_inj, UInt8.toNat_ofNat', Nat.mod_eq_of_lt hfits]
  omega

theorem isRepeated_repeated {half : Nat} (h : half < 16) : isRepeated (repeated half) = true := by
  have hfits : 17 * half < 2 ^ 8 := by omega
  unfold isRepeated repeated
  rw [decide_eq_true_eq, UInt8.toNat_ofNat', Nat.mod_eq_of_lt hfits]
  exact Nat.mul_mod_right 17 half

/-- Every component has the same halves. -/
def IsRepeated (c : Rgba) : Prop :=
  isRepeated c.red = true ∧ isRepeated c.green = true ∧ isRepeated c.blue = true ∧
    isRepeated c.alpha = true

theorem joinHalves_high (high low : UInt8) : (joinHalves high low).toNat / 16 = high.toNat / 16 := by
  have hhigh := high.toNat_lt
  have hlow := low.toNat_lt
  unfold joinHalves
  rw [UInt8.toNat_ofNat']
  omega

theorem joinHalves_low (high low : UInt8) : (joinHalves high low).toNat % 16 = low.toNat / 16 := by
  have hhigh := high.toNat_lt
  have hlow := low.toNat_lt
  unfold joinHalves
  rw [UInt8.toNat_ofNat']
  omega

/-- Halves which repeat are read back from their joined bytes. -/
theorem meaning?_joinHalves {c : Rgba} (h : IsRepeated c) :
    (two (joinHalves c.red c.green) (joinHalves c.blue c.alpha)).meaning? = some c := by
  obtain ⟨hred, hgreen, hblue, halpha⟩ := h
  unfold meaning?
  simp only [joinHalves_high, joinHalves_low, isRepeated_iff.1 hred, isRepeated_iff.1 hgreen,
    isRepeated_iff.1 hblue, isRepeated_iff.1 halpha]

/-- Two bytes mean nothing but repeated halves. -/
theorem isRepeated_of_two {rg ba : UInt8} {c : Rgba} (h : (two rg ba).meaning? = some c) :
    IsRepeated c := by
  have hrg := rg.toNat_lt
  have hba := ba.toNat_lt
  obtain rfl := Option.some.inj h
  exact ⟨isRepeated_repeated (by omega), isRepeated_repeated (by omega),
    isRepeated_repeated (by omega), isRepeated_repeated (by omega)⟩

/-! ## §5. The form which is taken. -/

theorem isRepeated_bools {c : Rgba} : (isRepeated c.red && isRepeated c.green && isRepeated c.blue &&
    isRepeated c.alpha) = true ↔ IsRepeated c := by
  simp only [Bool.and_eq_true, IsRepeated, and_assoc]

/-- **A color is read back** from the form it takes. -/
theorem meaning?_ofPremultiplied (c : Rgba) : (ofPremultiplied c).meaning? = some c := by
  unfold ofPremultiplied
  split
  · next i hi => exact oneByte?_iff.1 hi
  · split
    · next hrepeated => exact meaning?_joinHalves (isRepeated_bools.1 hrepeated)
    · split
      · next halpha =>
        show some (Rgba.mk _ _ _ 255) = some c
        rw [← halpha]
      · rfl

/-- **No shorter form means the color.** -/
theorem length_ofPremultiplied_le {c : Rgba} {d : DirectColor} (h : d.meaning? = some c) :
    (ofPremultiplied c).bytes.length ≤ d.bytes.length := by
  unfold ofPremultiplied
  -- a color with the form `d` passes one of the tests up to that of `d`
  cases d with
  | one i =>
    exact Nat.le_of_eq (by rw [oneByte?_iff.2 h])
  | two rg ba =>
    have hrepeated := isRepeated_bools.2 (isRepeated_of_two h)
    split
    · exact Nat.le_succ 1
    · exact Nat.le_of_eq (by rw [if_pos hrepeated]; rfl)
  | three r g b =>
    obtain rfl := Option.some.inj h
    split
    · exact Nat.le_add_left 1 2
    · split
      · exact Nat.le_succ 2
      · exact Nat.le_of_eq (by rw [if_pos rfl])
  | four r g b a =>
    split
    · exact Nat.le_add_left 1 3
    · split
      · exact Nat.le_add_left 2 2
      · split
        · exact Nat.le_succ 3
        · exact Nat.le_refl 4

/-- **The direct form of a color means the color, scaled by alpha, and is the
    shortest which does.**  No component exceeds alpha, and two colors have the same
    form and bytes if and only if they are the same once scaled. -/
theorem ofRgba_shortest (c : Rgba) :
    (ofRgba c).bytes.length = (ofRgba c).form.toNat + 1 ∧
      meaningOf? (ofRgba c).bytes = some c.premultiplied ∧
      (∀ bytes, meaningOf? bytes = some c.premultiplied →
        (ofRgba c).bytes.length ≤ bytes.length) ∧
      (c.premultiplied.red ≤ c.premultiplied.alpha ∧
        c.premultiplied.green ≤ c.premultiplied.alpha ∧
        c.premultiplied.blue ≤ c.premultiplied.alpha) ∧
      ∀ d : Rgba, ((ofRgba c).form = (ofRgba d).form ∧ (ofRgba c).bytes = (ofRgba d).bytes) ↔
        c.premultiplied = d.premultiplied := by
  have hmeaning (c : Rgba) : meaningOf? (ofRgba c).bytes = some c.premultiplied := by
    rw [meaningOf?_bytes]
    exact meaning?_ofPremultiplied _
  refine ⟨length_bytes _, hmeaning c, fun bytes h => ?_, ⟨Rgba.scaleByAlpha_le _ _,
    Rgba.scaleByAlpha_le _ _, Rgba.scaleByAlpha_le _ _⟩, fun d => ⟨?_, fun h => ?_⟩⟩
  · obtain ⟨d, hd, hmeans⟩ := Option.bind_eq_some_iff.1 h
    rw [← bytes_of_ofBytes? hd]
    exact length_ofPremultiplied_le hmeans
  · rintro ⟨-, hbytes⟩
    -- the bytes alone tell the color
    have hc := hmeaning c
    rw [hbytes, hmeaning d] at hc
    exact (Option.some.inj hc).symm
  · unfold ofRgba
    rw [h]
    exact ⟨rfl, rfl⟩

/-- A translucent gray of one byte, a color of four halves, and an opaque one whose
    green alone takes a byte. -/
example : (ofRgba ⟨0xff, 0xff, 0xff, 0x80⟩).bytes = [126] ∧
    (ofRgba ⟨0xff, 0x80, 0x00, 0x88⟩).bytes = [0x84, 0x08] ∧
    (ofRgba ⟨0xff, 0x12, 0x00, 0xff⟩).bytes = [0xff, 0x12, 0x00] := by decide

end DirectColor

end Icon

end VectorIcon

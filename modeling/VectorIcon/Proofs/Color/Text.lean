/-
  VectorIcon.Proofs.Color.Text
  ────────────────────────────────
  **THE TEXT OF A COLOR IS READ BACK, AND NOTHING ELSE IS READ.**

  A color can be written with three, six or eight hexadecimal digits.  Whatever
  the form, the digits written in full (`fullDigits`) are the four components in
  lower case (`Rgba.fullText`), and the canonical text drops those of an opaque
  alpha.

  Reading by ranges of bytes (`Rgba.ofText`) first makes sure that all bytes are
  hexadecimal digits.  So all characters are of one byte, every range lies
  between characters, and the reading comes to what `Rgba.parse?` says
  (`ofText_eq`).

  Main result:
    * `Rgba.ofText_canonical`.
-/
import Mathlib.Algebra.Group.Nat.Defs
import Mathlib.Data.List.Basic
import VectorIcon.Color.Reading
import VectorIcon.Proofs.Bits
import VectorIcon.Proofs.Text.Utf8

namespace VectorIcon

namespace Text

/-! ## §1. Hexadecimal digits. -/

/-- The hexadecimal digits of either case. -/
def hexDigits : List Char := "0123456789abcdefABCDEF".toList

/-- A digit with its value, which is written with the lower case of the digit. -/
structure IsDigit (d : Char) (n : ℕ) : Prop where
  lt : n < 16
  read : hexDigit? d = some n
  lower : Nat.digitChar n = d.toLower

theorem exists_isDigit {d : Char} (h : d ∈ hexDigits) : ∃ n, IsDigit d n := by
  have hall : hexDigits.all (fun d => (hexDigit? d).any fun n =>
      decide (n < 16 ∧ Nat.digitChar n = d.toLower)) = true := by decide
  obtain ⟨n, hn, hvalue⟩ := (Option.any_eq_true _ _).1 (List.all_eq_true.1 hall d h)
  obtain ⟨hlt, hlower⟩ := of_decide_eq_true hvalue
  exact ⟨n, ⟨hlt, hn, hlower⟩⟩

/-- A fact about characters of one byte is checked on their codes. -/
theorem ascii_forall {P : Char → Prop} (h : ∀ n < 128, P (Char.ofNat n)) {c : Char}
    (hc : c.toNat < 128) : P c := by
  have := h c.toNat hc
  rwa [Char.ofNat_toNat] at this

/-- What is beyond the characters of one byte is no digit. -/
theorem hexDigit?_high {c : Char} (h : 128 ≤ c.toNat) : hexDigit? c = none := by
  have hbound (hi : Char) (hhi : hi.toNat < 128) : ¬ c ≤ hi := by
    intro hle
    have : c.toNat ≤ hi.toNat := UInt32.le_iff_toNat_le.1 hle
    omega
  unfold hexDigit?
  rw [if_neg fun h => hbound _ (by decide) h.2, if_neg fun h => hbound _ (by decide) h.2,
    if_neg fun h => hbound _ (by decide) h.2]

theorem mem_hexDigits {c : Char} : c ∈ hexDigits ↔ (hexDigit? c).isSome = true := by
  by_cases hc : c.toNat < 128
  · exact ascii_forall (P := fun c => c ∈ hexDigits ↔ (hexDigit? c).isSome = true)
      (by decide +kernel) hc
  · rw [hexDigit?_high (by omega)]
    refine ⟨fun h => ?_, fun h => by cases h⟩
    obtain ⟨n, hn⟩ := exists_isDigit h
    have hread := hn.read
    rw [hexDigit?_high (by omega)] at hread
    cases hread

/-- The bytes of a character are hexadecimal digits if it is one. -/
theorem encodeChar_isHexByte (c : Char) :
    (String.utf8EncodeChar c).all isHexByte = decide (c ∈ hexDigits) := by
  by_cases hc : c.toNat < 128
  · exact ascii_forall
      (P := fun c => (String.utf8EncodeChar c).all isHexByte = decide (c ∈ hexDigits))
      (by decide +kernel) hc
  · -- the first of several bytes has its highest bit set
    obtain ⟨b, bs, hencode, hb⟩ := encodeChar_high (Nat.le_of_not_lt hc)
    have hbyte : ∀ n < 256, 128 ≤ n → isHexByte (UInt8.ofNat n) = false := by decide +kernel
    have hlead : isHexByte b = false := by
      rw [← UInt8.ofNat_toNat (x := b)]
      exact hbyte b.toNat b.toNat_lt hb
    have hmem : c ∉ hexDigits := by
      rw [mem_hexDigits, hexDigit?_high (Nat.le_of_not_lt hc)]
      exact Bool.false_ne_true
    rw [decide_eq_false hmem, hencode, List.all_cons, hlead, Bool.false_and]

/-- **All bytes of a text are hexadecimal digits if all its characters are.** -/
theorem bytes_isHexByte (text : List Char) :
    (bytes text).all isHexByte = true ↔ ∀ d ∈ text, d ∈ hexDigits := by
  unfold bytes
  rw [List.all_flatMap, List.all_eq_true]
  refine forall₂_congr fun d _ => ?_
  rw [encodeChar_isHexByte, decide_eq_true_eq]

/-! ## §2. Ranges of digits. -/

section

variable {digits : List Char} (h : ∀ d ∈ digits, d ∈ hexDigits)

include h

theorem byteLength_digits : byteLength digits = digits.length := by
  induction digits with
  | nil => rfl
  | cons d ds ih =>
    have hsize : hexDigits.all (fun d => decide (d.utf8Size = 1)) = true := by decide
    have hd := of_decide_eq_true (List.all_eq_true.1 hsize d (h d List.mem_cons_self))
    rw [byteLength, hd, ih fun e he => h e (List.mem_cons_of_mem d he), List.length_cons,
      Nat.add_comm]

/-- A range of digits is cut by counting them. -/
theorem range?_digits {offset count : ℕ} (hle : offset + count ≤ digits.length) :
    range? digits offset count = some ((digits.drop offset).take count) := by
  have hcut {ds : List Char} {n : ℕ} (hds : ∀ d ∈ ds, d ∈ hexDigits) (hn : n ≤ ds.length) :
      cut? n ds = some (ds.take n, ds.drop n) := by
    refine cut?_iff.2 ⟨(List.take_append_drop n ds).symm, ?_⟩
    rw [byteLength_digits fun d hd => hds d (List.mem_of_mem_take hd), List.length_take,
      Nat.min_eq_left hn]
  unfold range?
  rw [hcut h (by omega)]
  show (cut? count (digits.drop offset)).map Prod.fst = _
  rw [hcut (fun d hd => h d (List.mem_of_mem_drop hd)) (by rw [List.length_drop]; omega)]
  rfl

end

/-- A digit is not taken for a sign. -/
theorem dropPlus_digit {d : Char} {n : ℕ} (h : hexDigit? d = some n) (ds : List Char) :
    dropPlus (d :: ds) = d :: ds := by
  unfold dropPlus
  split
  · next heq =>
    obtain ⟨rfl, -⟩ := List.cons.inj heq
    cases h
  · rfl

/-- The byte of one digit. -/
theorem hexByte?_one {d : Char} {n : ℕ} (h : IsDigit d n) : hexByte? [d] = some (UInt8.ofNat n) := by
  have hlt := h.lt
  have hvalue : hexValue [n] = n := by
    show 16 * 0 + n = n
    omega
  unfold hexByte?
  rw [dropPlus_digit h.read]
  simp only [List.mapM_cons, List.mapM_nil, h.read, Option.pure_def, Option.bind_eq_bind,
    Option.bind_some, hvalue, if_pos (show n < 256 by omega)]

/-- The byte of two digits. -/
theorem hexByte?_two {d e : Char} {m n : ℕ} (hd : IsDigit d m) (he : IsDigit e n) :
    hexByte? [d, e] = some (Rgba.byteOf m n) := by
  have hm := hd.lt
  have hn := he.lt
  have hvalue : hexValue [m, n] = 16 * m + n := by
    show 16 * (16 * 0 + m) + n = _
    omega
  unfold hexByte?
  rw [dropPlus_digit hd.read]
  simp only [List.mapM_cons, List.mapM_nil, hd.read, he.read, Option.pure_def, Option.bind_eq_bind,
    Option.bind_some, hvalue, if_pos (show 16 * m + n < 256 by omega), Rgba.byteOf]

/-! ## §3. Texts without white space. -/

/-- The digits of a byte are not blank. -/
theorem byteText_plain (b : UInt8) : ∀ c ∈ byteText b, isBlank c = false := by
  have hdigit : ∀ n < 16, isBlank (Nat.digitChar n) = false := by decide
  have hhigh := hdigit (b.toNat / 16) (by have := b.toNat_lt; omega)
  have hlow := hdigit (b.toNat % 16) (by omega)
  intro c hc
  simp only [byteText, List.mem_cons, List.not_mem_nil, or_false] at hc
  rcases hc with rfl | rfl
  · exact hhigh
  · exact hlow

/-- Nothing is trimmed off a text without white space. -/
theorem trim_plain {cs : List Char} (h : ∀ c ∈ cs, isBlank c = false) : trim cs = cs := by
  have hdrop (ds : List Char) (hds : ∀ c ∈ ds, isBlank c = false) : ds.dropWhile isBlank = ds := by
    cases ds with
    | nil => rfl
    | cons d ds => rw [List.dropWhile_cons, hds d List.mem_cons_self]; rfl
  unfold trim trimEnd trimStart
  rw [hdrop cs h, hdrop cs.reverse fun c hc => h c (List.mem_reverse.1 hc), List.reverse_reverse]

/-- Nothing is trimmed off a mark with digits. -/
theorem trim_digits {digits : List Char} (h : ∀ d ∈ digits, d ∈ hexDigits) :
    trim ('#' :: digits) = '#' :: digits := by
  have hplain : hexDigits.all (fun d => ! isBlank d) = true := by decide
  refine trim_plain fun c hc => ?_
  rcases List.mem_cons.1 hc with rfl | hc
  · decide
  · simpa using List.all_eq_true.1 hplain c (h c hc)

end Text

namespace Rgba

/-! ## §4. Colors and their components. -/

theorem byteOf_halves (b : UInt8) : byteOf (b.toNat / 16) (b.toNat % 16) = b := by
  unfold byteOf
  rw [Nat.div_add_mod, UInt8.ofNat_toNat]

/-- **A color is read back from its text**, opaque or not. -/
theorem parse?_text (c : Rgba) : parse? c.text = some c := by
  have hplain : ∀ d ∈ c.text, Text.isBlank d = false := by
    intro d hd
    unfold text at hd
    rcases List.mem_cons.1 hd with rfl | hd
    · decide
    · simp only [List.mem_append] at hd
      rcases hd with ((hd | hd) | hd) | hd
      · exact Text.byteText_plain _ d hd
      · exact Text.byteText_plain _ d hd
      · exact Text.byteText_plain _ d hd
      · split at hd
        · cases hd
        · exact Text.byteText_plain _ d hd
  unfold parse?
  rw [Text.trim_plain hplain]
  unfold text
  simp only
  rw [List.mapM_append, List.mapM_append, List.mapM_append]
  simp only [Text.mapM_hexDigit?_byteText]
  by_cases hopaque : c.alpha = 255
  · rw [if_pos hopaque]
    show some (Rgba.mk (byteOf _ _) (byteOf _ _) (byteOf _ _) 255) = _
    rw [byteOf_halves, byteOf_halves, byteOf_halves, ← hopaque]
  · rw [if_neg hopaque, Text.mapM_hexDigit?_byteText]
    show some (Rgba.mk (byteOf _ _) (byteOf _ _) (byteOf _ _) (byteOf _ _)) = _
    rw [byteOf_halves, byteOf_halves, byteOf_halves, byteOf_halves]

/-- All four components of a color, two digits for each. -/
def fullText (c : Rgba) : List Char :=
  Text.byteText c.red ++ Text.byteText c.green ++ Text.byteText c.blue ++ Text.byteText c.alpha

/-- Digits without those of an opaque alpha. -/
def dropOpaque (digits : List Char) : List Char :=
  if digits.drop 6 = ['f', 'f'] then digits.take 6 else digits

/-- The digits of 255 are those of no other byte. -/
theorem byteText_full {b : UInt8} : Text.byteText b = ['f', 'f'] ↔ b = 255 := by
  constructor
  · intro h
    have hvalues := Text.mapM_hexDigit?_byteText b
    rw [h] at hvalues
    have hlist : [15, 15] = [b.toNat / 16, b.toNat % 16] := Option.some.inj hvalues
    simp only [List.cons.injEq, and_true] at hlist
    rw [← UInt8.toNat_inj]
    show b.toNat = 255
    omega
  · rintro rfl
    rfl

/-- The text of a color is told by all of its digits. -/
theorem text_eq (c : Rgba) : c.text = '#' :: dropOpaque c.fullText := by
  have hdrop : c.fullText.drop 6 = Text.byteText c.alpha := rfl
  have htake : c.fullText.take 6 =
      Text.byteText c.red ++ Text.byteText c.green ++ Text.byteText c.blue := rfl
  unfold text dropOpaque
  rw [hdrop, htake]
  by_cases hopaque : c.alpha = 255
  · rw [if_pos hopaque, if_pos (byteText_full.2 hopaque), List.append_nil]
  · rw [if_neg hopaque, if_neg fun h => hopaque (byteText_full.1 h)]
    rfl

theorem fullText_injective {c d : Rgba} (h : c.fullText = d.fullText) : c = d := by
  have htext : c.text = d.text := by rw [text_eq, text_eq, h]
  have hread := parse?_text c
  rw [htext, parse?_text] at hread
  exact (Option.some.inj hread).symm

/-! ## §5. The ways to write a color. -/

/-- Three, six or eight hexadecimal digits. -/
def IsNotation (digits : List Char) : Prop :=
  (digits.length = 3 ∨ digits.length = 6 ∨ digits.length = 8) ∧ ∀ d ∈ digits, d ∈ Text.hexDigits

/-- Digits with each of three doubled. -/
def doubleDigits : List Char → List Char
  | [r, g, b] => [r, r, g, g, b, b]
  | digits => digits

theorem doubleDigits_of_ne {digits : List Char} (h : digits.length ≠ 3) :
    doubleDigits digits = digits := by
  unfold doubleDigits
  split
  · exact absurd rfl h
  · rfl

/-- Digits in full: three are doubled, and a missing alpha is that of 255. -/
def fullDigits (digits : List Char) : List Char :=
  let digits := doubleDigits digits
  if digits.length = 6 then digits ++ ['f', 'f'] else digits

/-- The canonical digits: in lower case, without an opaque alpha. -/
def canonicalDigits (digits : List Char) : List Char :=
  dropOpaque ((fullDigits digits).map Char.toLower)

/-- The digits which a byte is written with, from those which it was read from. -/
theorem byteText_byteOf {d e : Char} {m n : ℕ} (hd : Text.IsDigit d m) (he : Text.IsDigit e n) :
    Text.byteText (byteOf m n) = [d.toLower, e.toLower] := by
  have hm := hd.lt
  have hn := he.lt
  have hvalue : (byteOf m n).toNat = 16 * m + n := by
    unfold byteOf
    rw [UInt8.toNat_ofNat']
    omega
  unfold Text.byteText
  rw [hvalue, show (16 * m + n) / 16 = m by omega, show (16 * m + n) % 16 = n by omega, hd.lower,
    he.lower]

section

variable {text digits : List Char} (h : ∀ d ∈ digits, d ∈ Text.hexDigits)

include h

/-- The component which two digits write. -/
theorem exists_component (text : List Char) (offset : ℕ) (hle : offset + 2 ≤ digits.length) :
    ∃ b, component text digits offset 2 = pure b ∧
      Text.byteText b = ((digits.drop offset).take 2).map Char.toLower := by
  have hlength : ((digits.drop offset).take 2).length = 2 := by
    rw [List.length_take, List.length_drop]
    omega
  obtain ⟨d, e, hpair⟩ := List.length_eq_two.1 hlength
  have hmem {c : Char} (hc : c ∈ [d, e]) : c ∈ Text.hexDigits := by
    rw [← hpair] at hc
    exact h c (List.mem_of_mem_drop (List.mem_of_mem_take hc))
  obtain ⟨m, hd⟩ := Text.exists_isDigit (hmem List.mem_cons_self)
  obtain ⟨n, he⟩ := Text.exists_isDigit (hmem (List.mem_cons_of_mem d List.mem_cons_self))
  refine ⟨byteOf m n, ?_, ?_⟩
  · unfold component
    rw [Text.range?_digits h hle, hpair]
    simp only [Text.hexByte?_two hd he]
  · rw [byteText_byteOf hd he, hpair]
    rfl

/-- The first three components of two digits each. -/
theorem exists_components (text : List Char) (hle : 6 ≤ digits.length) :
    ∃ r g b, component text digits 0 2 = pure r ∧ component text digits 2 2 = pure g ∧
      component text digits 4 2 = pure b ∧
      Text.byteText r ++ Text.byteText g ++ Text.byteText b = (digits.take 6).map Char.toLower := by
  obtain ⟨r, hr, hred⟩ := exists_component h text 0 (by omega)
  obtain ⟨g, hg, hgreen⟩ := exists_component h text 2 (by omega)
  obtain ⟨b, hb, hblue⟩ := exists_component h text 4 (by omega)
  refine ⟨r, g, b, hr, hg, hb, ?_⟩
  have htake : digits.take 6 =
      (digits.drop 0).take 2 ++ (digits.drop 2).take 2 ++ (digits.drop 4).take 2 := by
    rw [show 6 = 2 + 2 + 2 from rfl, List.take_add, List.take_add]
    rfl
  rw [htake, List.map_append, List.map_append, hred, hgreen, hblue]

/-- The component which one digit writes when doubled. -/
theorem doubled_one {offset n : ℕ} {d : Char} (htake : (digits.drop offset).take 1 = [d])
    (hd : Text.IsDigit d n) : doubled text digits offset = pure (byteOf n n) := by
  have hn := hd.lt
  have hlength : offset + 1 ≤ digits.length := by
    have := congrArg List.length htake
    rw [List.length_take, List.length_drop, List.length_singleton] at this
    omega
  have hcomponent : component text digits offset 1 = pure (UInt8.ofNat n) := by
    unfold component
    rw [Text.range?_digits h hlength, htake]
    simp only [Text.hexByte?_one hd]
  have hvalue : (UInt8.ofNat n).toNat = n := by
    rw [UInt8.toNat_ofNat']
    omega
  have hproduct : UInt8.ofNat n * 0x11 = byteOf n n := by
    rw [← UInt8.toNat_inj, UInt8.toNat_mul, hvalue]
    unfold byteOf
    rw [UInt8.toNat_ofNat']
    show n * 17 % 256 = _
    omega
  unfold doubled
  rw [hcomponent, pure_bind, hvalue, if_pos (by omega), hproduct]

/-- Digits have the values of their lower case. -/
theorem mapM_lower : digits.mapM Text.hexDigit? = (digits.map Char.toLower).mapM Text.hexDigit? := by
  have hwritten : ∀ n < 16, Text.hexDigit? (Nat.digitChar n) = some n := by decide
  induction digits with
  | nil => rfl
  | cons d ds ih =>
    obtain ⟨n, hn⟩ := Text.exists_isDigit (h d List.mem_cons_self)
    rw [List.map_cons, List.mapM_cons, List.mapM_cons, hn.read, ← hn.lower, hwritten n hn.lt,
      ih fun e he => h e (List.mem_cons_of_mem d he)]

end

/-- A color is what digits are read as, by ranges of bytes and by characters. -/
structure ReadAs (text digits : List Char) (c : Rgba) : Prop where
  ranges : ofDigits text digits = pure c
  characters : (digits.mapM Text.hexDigit?).bind ofDigits? = some c
  full : c.fullText = (fullDigits digits).map Char.toLower
  alpha : digits.length ≠ 8 → c.alpha = 255

section

variable {digits : List Char} (h : ∀ d ∈ digits, d ∈ Text.hexDigits)

include h

theorem readAs_three (text : List Char) (hlength : digits.length = 3) : ∃ c, ReadAs text digits c := by
  obtain ⟨r, g, b, rfl⟩ := List.length_eq_three.1 hlength
  obtain ⟨r', hr⟩ := Text.exists_isDigit (h r (by simp))
  obtain ⟨g', hg⟩ := Text.exists_isDigit (h g (by simp))
  obtain ⟨b', hb⟩ := Text.exists_isDigit (h b (by simp))
  refine ⟨⟨byteOf r' r', byteOf g' g', byteOf b' b', 255⟩, ?_, ?_, ?_, fun _ => rfl⟩
  · unfold ofDigits
    rw [Text.byteLength_digits h]
    show (doubled text _ 0 >>= _) = _
    rw [doubled_one h rfl hr, pure_bind, doubled_one h rfl hg, pure_bind, doubled_one h rfl hb,
      pure_bind]
  · simp only [List.mapM_cons, List.mapM_nil, hr.read, hg.read, hb.read]
    rfl
  · show _ ++ Text.byteText 255 = _
    rw [byteText_byteOf hr hr, byteText_byteOf hg hg, byteText_byteOf hb hb, byteText_full.2 rfl]
    rfl

theorem readAs_six (text : List Char) (hlength : digits.length = 6) : ∃ c, ReadAs text digits c := by
  obtain ⟨r, g, b, hr, hg, hb, hdigits⟩ := exists_components h text (by omega)
  rw [List.take_of_length_le (Nat.le_of_eq hlength)] at hdigits
  refine ⟨⟨r, g, b, 255⟩, ?_, ?_, ?_, fun _ => rfl⟩
  · unfold ofDigits
    rw [Text.byteLength_digits h, hlength]
    show (component text _ 0 2 >>= _) = _
    rw [hr, pure_bind, hg, pure_bind, hb, pure_bind]
  · rw [mapM_lower h, ← hdigits, List.mapM_append, List.mapM_append]
    simp only [Text.mapM_hexDigit?_byteText]
    show some (Rgba.mk (byteOf _ _) (byteOf _ _) (byteOf _ _) 255) = _
    rw [byteOf_halves, byteOf_halves, byteOf_halves]
  · show _ ++ Text.byteText 255 = _
    unfold fullDigits
    rw [doubleDigits_of_ne (by omega), if_pos hlength, List.map_append, ← hdigits,
      byteText_full.2 rfl]
    rfl

theorem readAs_eight (text : List Char) (hlength : digits.length = 8) :
    ∃ c, ReadAs text digits c := by
  obtain ⟨r, g, b, hr, hg, hb, hfirst⟩ := exists_components h text (by omega)
  obtain ⟨a, ha, hlast⟩ := exists_component h text 6 (by omega)
  have hdigits : Text.byteText r ++ Text.byteText g ++ Text.byteText b ++ Text.byteText a =
      digits.map Char.toLower := by
    rw [hfirst, hlast, ← List.map_append, ← List.take_add,
      List.take_of_length_le (Nat.le_of_eq hlength)]
  refine ⟨⟨r, g, b, a⟩, ?_, ?_, ?_, fun hne => absurd hlength hne⟩
  · unfold ofDigits
    rw [Text.byteLength_digits h, hlength]
    show (component text _ 0 2 >>= _) = _
    rw [hr, pure_bind, hg, pure_bind, hb, pure_bind, ha, pure_bind]
  · rw [mapM_lower h, ← hdigits, List.mapM_append, List.mapM_append, List.mapM_append]
    simp only [Text.mapM_hexDigit?_byteText]
    show some (Rgba.mk (byteOf _ _) (byteOf _ _) (byteOf _ _) (byteOf _ _)) = _
    rw [byteOf_halves, byteOf_halves, byteOf_halves, byteOf_halves]
  · unfold fullDigits
    rw [doubleDigits_of_ne (by omega), if_neg (by omega)]
    exact hdigits

end

/-- **Digits of each of the three lengths are read.** -/
theorem ofDigits_notation (text : List Char) {digits : List Char} (h : IsNotation digits) :
    ∃ c, ReadAs text digits c := by
  obtain ⟨hlength, h⟩ := h
  rcases hlength with hlength | hlength | hlength
  · exact readAs_three h text hlength
  · exact readAs_six h text hlength
  · exact readAs_eight h text hlength

/-- The digits which are the same in full write the same color. -/
theorem fullDigits_doubleDigits (digits : List Char) :
    fullDigits (doubleDigits digits) = fullDigits digits := by
  have hidem : doubleDigits (doubleDigits digits) = doubleDigits digits := by
    by_cases h : digits.length = 3
    · obtain ⟨r, g, b, rfl⟩ := List.length_eq_three.1 h
      rfl
    · rw [doubleDigits_of_ne h, doubleDigits_of_ne h]
  unfold fullDigits
  rw [hidem]

theorem IsNotation.double {digits : List Char} (h : IsNotation digits) :
    IsNotation (doubleDigits digits) := by
  by_cases hlength : digits.length = 3
  · obtain ⟨r, g, b, rfl⟩ := List.length_eq_three.1 hlength
    refine ⟨.inr (.inl rfl), fun d hd => h.2 d ?_⟩
    simpa [doubleDigits] using hd
  · rwa [doubleDigits_of_ne hlength]

/-! ## §6. Reading texts. -/

/-- The text is a mark with digits, but for white space around it. -/
def IsWritten (text digits : List Char) : Prop :=
  Text.trim text = '#' :: digits ∧ IsNotation digits

/-- What a written color is read as. -/
theorem ofText_written {text digits : List Char} (h : IsWritten text digits) :
    ∃ c : Rgba, ofText text = pure c ∧ parse? text = some c ∧
      c.fullText = (fullDigits digits).map Char.toLower ∧ (digits.length ≠ 8 → c.alpha = 255) := by
  obtain ⟨htrim, hdigits⟩ := h
  obtain ⟨c, hread, hparse, hfull, halpha⟩ := ofDigits_notation text hdigits
  refine ⟨c, ?_, ?_, hfull, halpha⟩
  · unfold ofText
    rw [htrim]
    show (if _ then _ else _) = _
    rw [if_pos ((Text.bytes_isHexByte digits).2 hdigits.2), hread]
  · unfold parse?
    rw [htrim]
    exact hparse

/-- Every other text is refused. -/
theorem ofText_unwritten {text : List Char} (h : ¬∃ digits, IsWritten text digits) :
    ofText text = throw (invalid text) := by
  unfold ofText
  split
  · next digits htrim =>
    by_cases hdigits : ∀ d ∈ digits, d ∈ Text.hexDigits
    · have hlength : ¬(digits.length = 3 ∨ digits.length = 6 ∨ digits.length = 8) :=
        fun hlength => h ⟨digits, htrim, hlength, hdigits⟩
      rw [if_pos ((Text.bytes_isHexByte digits).2 hdigits)]
      unfold ofDigits
      rw [Text.byteLength_digits hdigits]
      split <;> first | omega | rfl
    · rw [if_neg fun hbytes => hdigits ((Text.bytes_isHexByte digits).1 hbytes)]
  · rfl

theorem mapM_hexDigit?_some {digits : List Char} {values : List ℕ}
    (h : digits.mapM Text.hexDigit? = some values) :
    values.length = digits.length ∧ ∀ d ∈ digits, d ∈ Text.hexDigits := by
  induction digits generalizing values with
  | nil =>
    cases h
    exact ⟨rfl, fun d hd => absurd hd List.not_mem_nil⟩
  | cons d ds ih =>
    rw [List.mapM_cons] at h
    obtain ⟨n, hn, h⟩ := Option.bind_eq_some_iff.1 h
    obtain ⟨ns, hns, h⟩ := Option.bind_eq_some_iff.1 h
    obtain ⟨hlength, hmem⟩ := ih hns
    cases h
    refine ⟨congrArg (· + 1) hlength, ?_⟩
    rw [List.forall_mem_cons, Text.mem_hexDigits, hn]
    exact ⟨rfl, hmem⟩

/-- What is read as a color is one which is written so. -/
theorem exists_written {text : List Char} {c : Rgba} (h : parse? text = some c) :
    ∃ digits, IsWritten text digits := by
  unfold parse? at h
  split at h
  · next digits htrim =>
    obtain ⟨values, hvalues, hcolor⟩ := Option.bind_eq_some_iff.1 h
    obtain ⟨hlength, hmem⟩ := mapM_hexDigit?_some hvalues
    refine ⟨digits, htrim, ?_, hmem⟩
    rw [← hlength]
    unfold ofDigits? at hcolor
    split at hcolor
    · exact .inl rfl
    · exact .inr (.inl rfl)
    · exact .inr (.inr rfl)
    · cases hcolor
  · cases h

/-- **Reading by ranges of bytes always comes to an end**, a color or the one error,
    as reading by characters does. -/
theorem ofText_eq (text : List Char) :
    ofText text = match parse? text with
      | some c => pure c
      | none => throw (invalid text) := by
  by_cases h : ∃ digits, IsWritten text digits
  · obtain ⟨digits, hdigits⟩ := h
    obtain ⟨c, hread, hparse, -⟩ := ofText_written hdigits
    rw [hread, hparse]
  · have hparse : parse? text = none := by
      cases hc : parse? text with
      | none => rfl
      | some c => exact absurd (exists_written hc) h
    rw [ofText_unwritten h, hparse]

/-! ## §7. Packed words. -/

/-- The packed word as a number of four places. -/
theorem packed_toNat (c : Rgba) : c.packed.toNat =
    c.alpha.toNat * 16777216 + c.blue.toNat * 65536 + c.green.toNat * 256 + c.red.toNat := by
  have hr : c.red.toNat < 256 := c.red.toNat_lt
  have hg : c.green.toNat < 256 := c.green.toNat_lt
  have hb : c.blue.toNat < 256 := c.blue.toNat_lt
  have ha : c.alpha.toNat < 256 := c.alpha.toNat_lt
  have halpha : c.alpha.toNat * 16777216 % 4294967296 = c.alpha.toNat * 16777216 :=
    Nat.mod_eq_of_lt (by omega)
  have hblue : c.blue.toNat * 65536 % 4294967296 = c.blue.toNat * 65536 :=
    Nat.mod_eq_of_lt (by omega)
  have hgreen : c.green.toNat * 256 % 4294967296 = c.green.toNat * 256 :=
    Nat.mod_eq_of_lt (by omega)
  have h24 : c.alpha.toNat * 16777216 ||| c.blue.toNat * 65536 =
      c.alpha.toNat * 16777216 + c.blue.toNat * 65536 :=
    Nat.or_eq_add_of_dvd (k := 24) (by omega) (by omega)
  have h16 : c.alpha.toNat * 16777216 + c.blue.toNat * 65536 ||| c.green.toNat * 256 =
      c.alpha.toNat * 16777216 + c.blue.toNat * 65536 + c.green.toNat * 256 :=
    Nat.or_eq_add_of_dvd (k := 16) (by omega) (by omega)
  have h8 : c.alpha.toNat * 16777216 + c.blue.toNat * 65536 + c.green.toNat * 256 ||| c.red.toNat = _ :=
    Nat.or_eq_add_of_dvd (k := 8) (by omega) (by omega)
  unfold packed
  simp only [UInt32.toNat_or, UInt32.toNat_shiftLeft, UInt8.toNat_toUInt32, Nat.shiftLeft_eq]
  show (c.alpha.toNat * 16777216 % 4294967296 ||| c.blue.toNat * 65536 % 4294967296 |||
    c.green.toNat * 256 % 4294967296 ||| c.red.toNat) = _
  rw [halpha, hblue, hgreen, h24, h16, h8]

/-- The components are the bytes of the packed word. -/
theorem ofPacked_packed (c : Rgba) : ofPacked c.packed = c := by
  have h := packed_toNat c
  have hr := c.red.toNat_lt
  have hg := c.green.toNat_lt
  have hb := c.blue.toNat_lt
  have ha := c.alpha.toNat_lt
  unfold ofPacked
  congr 1
  all_goals
    rw [← UInt8.toNat_inj]
    simp only [UInt32.toNat_toUInt8, UInt32.toNat_shiftRight, Nat.shiftRight_eq_div_pow, h]
  · omega
  · show _ / 256 % _ = _
    omega
  · show _ / 65536 % _ = _
    omega
  · show _ / 16777216 % _ = _
    omega

theorem packed_ofPacked (w : UInt32) : (ofPacked w).packed = w := by
  have hw : w.toNat < 4294967296 := w.toNat_lt
  rw [← UInt32.toNat_inj, packed_toNat]
  simp only [ofPacked, UInt32.toNat_toUInt8, UInt32.toNat_shiftRight, Nat.shiftRight_eq_div_pow]
  show w.toNat / 16777216 % 256 * 16777216 + w.toNat / 65536 % 256 * 65536 + w.toNat / 256 % 256 * 256 +
    w.toNat % 256 = _
  omega

/-! ## §8. The main result. -/

/-- **Colors and their texts.**  Every color is read back from its text; this holds
    of packed words too, each of which is one color.  And a text is read exactly if
    it is a mark with three, six or eight hexadecimal digits, up to white space
    around it: three digits mean what they mean doubled, a missing alpha is 255, and
    the text of the color read is the canonical one.  For any other text, of
    whatever characters, the result is the error which quotes it; there is no text
    for which a range of bytes fails. -/
theorem ofText_canonical (text : List Char) :
    ((∀ c : Rgba, ofText c.text = some (.ok c) ∧ ofPacked c.packed = c) ∧
      ∀ w : UInt32, (ofPacked w).packed = w) ∧
    ofText text = some ((parse? text).elim (.error (.markup (.invalidColor text))) .ok) ∧
    ((∃ c, ofText text = some (.ok c)) ↔ ∃ digits, IsWritten text digits) ∧
    (ofText text = some (.error (.markup (.invalidColor text))) ↔ ¬∃ digits, IsWritten text digits) ∧
    ∀ digits, IsWritten text digits → ∃ c : Rgba, ofText text = some (.ok c) ∧
      ofText ('#' :: doubleDigits digits) = some (.ok c) ∧ (digits.length ≠ 8 → c.alpha = 255) ∧
      c.text = '#' :: canonicalDigits digits := by
  have hwritten : (∃ c, ofText text = some (.ok c)) ↔ ∃ digits, IsWritten text digits := by
    constructor
    · rintro ⟨c, hc⟩
      by_contra hnone
      rw [ofText_unwritten hnone] at hc
      cases hc
    · rintro ⟨digits, hdigits⟩
      obtain ⟨c, hc, -⟩ := ofText_written hdigits
      exact ⟨c, hc⟩
  refine ⟨⟨fun c => ⟨?_, ofPacked_packed c⟩, packed_ofPacked⟩, ?_, hwritten, ?_, ?_⟩
  · rw [ofText_eq, parse?_text]
    rfl
  · rw [ofText_eq]
    cases parse? text with
    | some c => rfl
    | none => rfl
  · refine ⟨fun herror hsome => ?_, fun hnone => ofText_unwritten hnone⟩
    obtain ⟨c, hc⟩ := hwritten.2 hsome
    rw [hc] at herror
    cases herror
  · intro digits hdigits
    obtain ⟨c, hc, -, hfull, halpha⟩ := ofText_written hdigits
    have hdouble : IsWritten ('#' :: doubleDigits digits) (doubleDigits digits) :=
      ⟨Text.trim_digits hdigits.2.double.2, hdigits.2.double⟩
    obtain ⟨d, hd, -, hfull', -⟩ := ofText_written hdouble
    rw [fullDigits_doubleDigits, ← hfull] at hfull'
    obtain rfl := fullText_injective hfull'
    refine ⟨d, hc, hd, halpha, ?_⟩
    rw [text_eq, hfull]
    rfl

/-- Three digits of either case between white space, one of them not of ASCII. -/
def shortText : List Char := [' ', '#', 'f', 'A', '0', '\u2003']

theorem ofText_canonical_short : IsWritten shortText ['f', 'A', '0'] ∧
    ∃ c : Rgba, ofText shortText = some (.ok c) ∧
      ofText ['#', 'f', 'f', 'A', 'A', '0', '0'] = some (.ok c) ∧ c.alpha = 255 ∧
      c.text = ['#', 'f', 'f', 'a', 'a', '0', '0'] := by
  have hdigits : ['f', 'A', '0'].all (fun d => decide (d ∈ Text.hexDigits)) = true := by decide
  have hwritten : IsWritten shortText ['f', 'A', '0'] :=
    ⟨by decide, .inl rfl, fun d hd => of_decide_eq_true (List.all_eq_true.1 hdigits d hd)⟩
  obtain ⟨-, -, -, -, h⟩ := ofText_canonical shortText
  obtain ⟨c, hc, hdouble, halpha, htext⟩ := h _ hwritten
  have hsix : doubleDigits ['f', 'A', '0'] = ['f', 'f', 'A', 'A', '0', '0'] := rfl
  rw [hsix] at hdouble
  refine ⟨hwritten, c, hc, hdouble, halpha (by decide), ?_⟩
  rw [htext]
  decide

end Rgba

end VectorIcon

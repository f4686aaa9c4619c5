/-
  VectorIcon.Text.Range
  ────────────────────────────────
  **RANGES OF THE BYTES OF A TEXT.**

  A text can be addressed by the bytes of its UTF-8 form.  A range of bytes is a
  text again only if it begins and ends between two characters; there is none
  which ends within a character or past the end of the text (`cut?_iff`).
-/
import VectorIcon.Text.Utf8

namespace VectorIcon

namespace Text

/-- The bytes of a text in UTF-8. -/
def bytes (text : List Char) : List UInt8 := text.flatMap String.utf8EncodeChar

/-- Cut a text after a number of bytes; none within a character and past the
    end. -/
def cut? : Nat → List Char → Option (List Char × List Char)
  | 0, cs => some ([], cs)
  | _ + 1, [] => none
  | n + 1, c :: cs =>
    if c.utf8Size ≤ n + 1 then (cut? (n + 1 - c.utf8Size) cs).map fun p => (c :: p.1, p.2)
    else none

/-- The range of `count` bytes from an offset on. -/
def range? (text : List Char) (offset count : Nat) : Option (List Char) :=
  (cut? offset text).bind fun p => (cut? count p.2).map Prod.fst

/-! ## Bytes and characters. -/

/-- There are as many bytes as the sizes of the characters add up to. -/
theorem length_bytes (text : List Char) : (bytes text).length = byteLength text := by
  induction text with
  | nil => rfl
  | cons c cs ih =>
    rw [bytes, List.flatMap_cons, List.length_append, String.length_utf8EncodeChar]
    exact congrArg (c.utf8Size + ·) ih

theorem byteLength_eq_zero {text : List Char} : byteLength text = 0 ↔ text = [] := by
  cases text with
  | nil => exact iff_of_true rfl rfl
  | cons c cs =>
    have hpos := c.utf8Size_pos
    refine iff_of_false ?_ nofun
    rw [byteLength]
    omega

/-- **A text is cut exactly between two characters.** -/
theorem cut?_iff {n : Nat} {text u v : List Char} :
    cut? n text = some (u, v) ↔ text = u ++ v ∧ byteLength u = n := by
  fun_induction cut? n text generalizing u v with
  | case1 cs =>
    rw [byteLength_eq_zero, Option.some_inj, Prod.mk.injEq]
    constructor
    · rintro ⟨rfl, rfl⟩
      exact ⟨rfl, rfl⟩
    · rintro ⟨rfl, rfl⟩
      exact ⟨rfl, rfl⟩
  | case2 n =>
    refine iff_of_false nofun ?_
    rintro ⟨h, hn⟩
    obtain ⟨rfl, -⟩ := List.append_eq_nil_iff.1 h.symm
    cases hn
  | case3 n c cs hle ih =>
    rw [Option.map_eq_some_iff]
    constructor
    · rintro ⟨⟨u', v'⟩, hcut, hp⟩
      obtain ⟨rfl, hn⟩ := ih.1 hcut
      cases hp
      refine ⟨rfl, ?_⟩
      rw [byteLength, hn]
      omega
    · rintro ⟨h, hn⟩
      cases u with
      | nil => cases hn
      | cons d ds =>
        obtain ⟨rfl, rfl⟩ := List.cons.inj h
        rw [byteLength] at hn
        exact ⟨(ds, v), ih.2 ⟨rfl, by omega⟩, rfl⟩
  | case4 n c cs hlarge =>
    refine iff_of_false nofun ?_
    rintro ⟨h, hn⟩
    cases u with
    | nil => cases hn
    | cons d ds =>
      obtain ⟨rfl, -⟩ := List.cons.inj h
      rw [byteLength] at hn
      omega

end Text

end VectorIcon

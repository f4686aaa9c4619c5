/-
  VectorIcon.Xml.Reference
  ────────────────────────────────
  **REFERENCES AND THE VALUES OF ATTRIBUTES.**

  In text and in values `&name;` and `&#number;` stand for characters.  Only the
  five names of the standard are known.  A number which is no character stands
  for the replacement character.  In a value every line end and every tab
  becomes a space, unless it is written as a reference.
-/
import VectorIcon.Text.Hexadecimal
import VectorIcon.Xml.Token

namespace VectorIcon

namespace Xml

/-! ## §1. References. -/

/-- The character of a known name. -/
def namedChar? (name : List Char) : Option Char :=
  if name = "quot".toList then some '"'
  else if name = "amp".toList then some '&'
  else if name = "apos".toList then some '\''
  else if name = "lt".toList then some '<'
  else if name = "gt".toList then some '>'
  else none

/-- Whether a character is a hexadecimal digit. -/
def isHexDigit (c : Char) : Bool := (Text.hexDigit? c).isSome

/-- The number of a row of digits. -/
def numberOf (base : Nat) (digits : List Char) : Nat :=
  digits.foldl (fun n c => base * n + (Text.hexDigit? c).getD 0) 0

/-- The character with a code point, the replacement character if there is
    none. -/
def charOf (n : Nat) : Char := if n.isValidChar then Char.ofNat n else Char.ofNat 0xfffd

/-- Read the digits of a reference; the number has to fit 32 bits and the
    character has to be one of a document. -/
def numericReference (base : Nat) (isDigit : Char → Bool) : Reading Char := fun s =>
  let digits := s.takeWhile isDigit
  let c := charOf (numberOf base digits)
  if digits.isEmpty || 0x100000000 ≤ numberOf base digits || !isChar c then .error .badReference
  else .ok (c, s.dropWhile isDigit)

/-- Read a known name. -/
def namedReference : Reading Char := fun s =>
  match name s with
  | .error f => .error f
  | .ok (n, t) =>
    match namedChar? n with
    | some c => .ok (c, t)
    | none => .error .badReference

/-- Read a reference after `&`. -/
def reference : Reading Char := fun s =>
  let found :=
    match s with
    | '#' :: 'x' :: t => numericReference 16 isHexDigit t
    | '#' :: t => numericReference 10 Char.isDigit t
    | _ => namedReference s
  match found with
  | .ok (c, ';' :: t) => .ok (c, t)
  | .ok _ => .error .badReference
  | .error f => .error f

/-! ## §2. Progress. -/

theorem numericReference_keeps (base : Nat) (p : Char → Bool) :
    Scan.Keeps (numericReference base p) := by
  intro s a t h
  unfold numericReference at h
  simp only at h
  split at h
  · cases h
  · cases h
    have := Scan.length_takeWhile_add_dropWhile p s
    omega

theorem namedReference_keeps : Scan.Keeps namedReference := by
  intro s a t h
  unfold namedReference at h
  split at h
  · cases h
  · next n u hn =>
    split at h
    · cases h; exact Nat.le_of_lt (name_takes s n t hn)
    · cases h

theorem reference_takes : Scan.Takes reference := by
  intro s a t h
  have key : ∀ {c u}, (match s with
      | '#' :: 'x' :: t => numericReference 16 isHexDigit t
      | '#' :: t => numericReference 10 Char.isDigit t
      | _ => namedReference s) = .ok (c, u) → u.length ≤ s.length := by
    intro c u hf
    split at hf
    · next v => have := numericReference_keeps _ _ v c u hf; simp only [List.length_cons]; omega
    · next v _ => have := numericReference_keeps _ _ v c u hf; simp only [List.length_cons]; omega
    · exact namedReference_keeps _ _ _ hf
  unfold reference at h
  simp only at h
  split at h
  · next c v hf =>
    cases h
    have := key hf
    simp only [List.length_cons] at this
    omega
  · cases h
  · cases h

/-! ## §3. Text and values. -/

/-- Read one character of text. -/
def textChar : Reading Char := fun s =>
  match s with
  | '&' :: t => reference t
  | c :: t => .ok (c, t)
  | [] => .error .syntaxError

/-- Read one character of a value. -/
def valueChar : Reading Char := fun s =>
  match s with
  | '&' :: t => reference t
  | '\r' :: '\n' :: t => .ok (' ', t)
  | c :: t => .ok (if isSpace c then ' ' else c, t)
  | [] => .error .syntaxError

theorem textChar_takes : Scan.Takes textChar := by
  intro s a t h
  unfold textChar at h
  split at h
  · next u => have := reference_takes u a t h; simp only [List.length_cons]; omega
  · cases h; simp
  · cases h

theorem valueChar_takes : Scan.Takes valueChar := by
  intro s a t h
  unfold valueChar at h
  split at h
  · next u => have := reference_takes u a t h; simp only [List.length_cons]; omega
  · cases h; simp only [List.length_cons]; omega
  · cases h; simp
  · cases h

/-- Text with its references replaced. -/
def expandText (raw : List Char) : Except Fault (List Char) :=
  Scan.toEnd textChar textChar_takes raw

/-- The value of an attribute. -/
def expandValue (raw : List Char) : Except Fault (List Char) :=
  Scan.toEnd valueChar valueChar_takes raw

end Xml

end VectorIcon

/-
  VectorIcon.Json.Token
  ────────────────────────────────
  **THE TOKENS OF JSON TEXT.**

  Text is cut into tokens up to its end or to the first one which is broken.
  There are two ways to take a token in: to read it, or to skip it as a part of
  a value nobody asked for.  Skipping does not look at the value of a number and
  does not pair the surrogates of a string, and a number which breaks off at the
  end of the text is then a fault of another kind.  A token therefore tells both
  what reading and what skipping it amounts to.
-/
import VectorIcon.Json.Value
import VectorIcon.Text.Hexadecimal
import VectorIcon.Text.Utf8

namespace VectorIcon

namespace Json

/-! ## §1. Tokens. -/

/-- The fault of a broken piece of text. -/
structure Broken where
  whenRead : Fault
  whenSkipped : Fault
deriving DecidableEq, Repr, Inhabited

/-- The same fault in both cases. -/
def Broken.both (f : Fault) : Broken := ⟨f, f⟩

/-- A token. -/
inductive Token where
  | leftBrace
  | rightBrace
  | leftBracket
  | rightBracket
  | colon
  | comma
  | null
  | bool (b : Bool)
  /-- A number; the error is met only if it is read. -/
  | number (n : Except Fault Number)
  /-- A string; the error is met only if it is read. -/
  | string (s : Except Fault (List Char))
  | brokenString (b : Broken)
  | brokenValue (b : Broken)

/-- A token and the text after it. -/
abbrev Lexed := Token × List Char

/-! ## §2. White space and literals. -/

/-- White space of JSON. -/
def isSpace (c : Char) : Bool := c = ' ' || c = '\t' || c = '\n' || c = '\r'

/-- Read the rest of a literal. -/
def literal (t : Token) : List Char → List Char → Lexed
  | [], s => (t, s)
  | _ :: _, [] => (.brokenValue (.both .endOfText), [])
  | c :: cs, d :: s => if c = d then literal t cs s else (.brokenValue (.both .notJson), [])

/-! ## §3. Numbers. -/

/-- A number which misses a digit: at the end of the text only reading tells
    that it breaks off. -/
def missingDigit (s : List Char) : Lexed :=
  (.brokenValue (if s.isEmpty then ⟨.endOfText, .notJson⟩ else .both .notJson), [])

/-- A complete number. -/
def numberToken (t : NumberText) (s : List Char) : Lexed := (.number (Number.ofText t), s)

/-- Read the digits of an exponent. -/
def exponentDigits (t : NumberText) (negative : Bool) (s : List Char) : Lexed :=
  let (digits, r) := Decimal.splitDigits s
  if digits.isEmpty then missingDigit s
  else numberToken { t with exponent := some (negative, digits) } r

/-- Read an exponent, if there is one. -/
def exponentPart (t : NumberText) (s : List Char) : Lexed :=
  match s with
  | c :: r =>
    if c = 'e' ∨ c = 'E' then
      match r with
      | '+' :: r => exponentDigits t false r
      | '-' :: r => exponentDigits t true r
      | _ => exponentDigits t false r
    else numberToken t s
  | [] => numberToken t s

/-- Read a fraction, if there is one, and what follows it. -/
def fractionPart (t : NumberText) (s : List Char) : Lexed :=
  match s with
  | '.' :: r =>
    let (digits, u) := Decimal.splitDigits r
    if digits.isEmpty then missingDigit r
    else exponentPart { t with fraction := some digits } u
  | _ => exponentPart t s

/-- Read a number after its sign; a leading zero stands alone. -/
def number (negative : Bool) (s : List Char) : Lexed :=
  let (digits, r) := Decimal.splitDigits s
  match digits with
  | [] => missingDigit s
  | '0' :: _ :: _ => (.brokenValue (.both .notJson), [])
  | _ => fractionPart ⟨negative, digits, none, none⟩ r

/-! ## §4. Strings. -/

/-- What reading a string has come to: characters, latest first, perhaps a
    leading surrogate which waits for its pair, or a fault. -/
inductive StringState where
  | good (chars : List Char)
  | lead (chars : List Char) (unit : Nat)
  | bad (fault : Fault)

namespace StringState

/-- Take in a character. -/
def push (c : Char) : StringState → StringState
  | good cs => good (c :: cs)
  | lead _ _ => bad .notJson
  | bad f => bad f

/-- Take in a UTF-16 code unit. -/
def pushUnit (u : Nat) : StringState → StringState
  | good cs =>
    if 0xd800 ≤ u ∧ u < 0xdc00 then lead cs u
    else if 0xdc00 ≤ u ∧ u < 0xe000 then bad .notJson
    else good (Char.ofNat u :: cs)
  | lead cs v =>
    if 0xdc00 ≤ u ∧ u < 0xe000 then
      good (Char.ofNat (0x10000 + (v - 0xd800) * 0x400 + (u - 0xdc00)) :: cs)
    else bad .notJson
  | bad f => bad f

/-- The string at its closing quote. -/
def finish : StringState → Except Fault (List Char)
  | good cs => .ok cs.reverse
  | lead _ _ => .error .notJson
  | bad f => .error f

/-- The token of a string which breaks off with a fault. -/
def broken (f : Fault) : StringState → Lexed
  | bad g => (.brokenString ⟨g, f⟩, [])
  | _ => (.brokenString (.both f), [])

end StringState

/-- The character of a simple escape. -/
def escaped? : Char → Option Char
  | '"' => some '"'
  | '\\' => some '\\'
  | '/' => some '/'
  | 'b' => some '\x08'
  | 'f' => some '\x0c'
  | 'n' => some '\n'
  | 'r' => some '\r'
  | 't' => some '\t'
  | _ => none

/-- The code unit of four hexadecimal digits. -/
def unitOf? (a b c d : Char) : Option Nat := do
  let a ← Text.hexDigit? a
  let b ← Text.hexDigit? b
  let c ← Text.hexDigit? c
  let d ← Text.hexDigit? d
  return ((a * 16 + b) * 16 + c) * 16 + d

/-- The fault of an escape whose four digits are not there: the text ends too
    early if it has less than four bytes left. -/
def unitFault (s : List Char) : Fault :=
  if Text.byteLength (s.take 4) < 4 then .endOfText else .notJson

/-- Read a string after its opening quote. -/
def string (st : StringState) : List Char → Lexed
  | [] => st.broken .endOfText
  | '"' :: s => (.string st.finish, s)
  | ['\\'] => st.broken .endOfText
  | '\\' :: 'u' :: a :: b :: c :: d :: s =>
    match unitOf? a b c d with
    | some u => string (st.pushUnit u) s
    | none => st.broken (unitFault (a :: b :: c :: d :: s))
  | '\\' :: 'u' :: s => st.broken (unitFault s)
  | '\\' :: e :: s =>
    match escaped? e with
    | some c => string (st.push c) s
    | none => st.broken .notJson
  | c :: s => if c.toNat < 0x20 then st.broken .notJson else string (st.push c) s

/-! ## §5. Text. -/

/-- Read the token which begins with a character. -/
def tokenAt (c : Char) (s : List Char) : Lexed :=
  match c with
  | '\x7b' => (.leftBrace, s)
  | '\x7d' => (.rightBrace, s)
  | '[' => (.leftBracket, s)
  | ']' => (.rightBracket, s)
  | ':' => (.colon, s)
  | ',' => (.comma, s)
  | '"' => string (.good []) s
  | 'n' => literal .null ['u', 'l', 'l'] s
  | 't' => literal (.bool true) ['r', 'u', 'e'] s
  | 'f' => literal (.bool false) ['a', 'l', 's', 'e'] s
  | '-' => number true s
  | c => if Decimal.isDigit c then number false (c :: s) else (.brokenValue (.both .notJson), [])

/-! ## §6. Progress. -/

theorem literal_length_le (t : Token) (cs s : List Char) : (literal t cs s).2.length ≤ s.length := by
  fun_induction literal t cs s <;> simp_all
  omega

theorem missingDigit_snd (s : List Char) : (missingDigit s).2 = [] := rfl

theorem exponentDigits_length_le (t : NumberText) (negative : Bool) (s : List Char) :
    (exponentDigits t negative s).2.length ≤ s.length := by
  have := Decimal.splitDigits_length s
  unfold exponentDigits
  simp only
  split
  · rw [missingDigit_snd]; simp
  · show (Decimal.splitDigits s).2.length ≤ s.length
    omega

theorem exponentPart_length_le (t : NumberText) (s : List Char) :
    (exponentPart t s).2.length ≤ s.length := by
  unfold exponentPart
  split
  · next c r =>
    split
    · split
      · next u => have := exponentDigits_length_le t false u; simp only [List.length_cons]; omega
      · next u => have := exponentDigits_length_le t true u; simp only [List.length_cons]; omega
      · have := exponentDigits_length_le t false r; simp only [List.length_cons]; omega
    · exact Nat.le_refl _
  · exact Nat.le_refl _

theorem fractionPart_length_le (t : NumberText) (s : List Char) :
    (fractionPart t s).2.length ≤ s.length := by
  unfold fractionPart
  split
  · next r =>
    have h1 := Decimal.splitDigits_length r
    simp only
    split
    · rw [missingDigit_snd]; simp
    · have h2 := exponentPart_length_le { t with fraction := some (Decimal.splitDigits r).1 }
        (Decimal.splitDigits r).2
      simp only [List.length_cons]
      omega
  · exact exponentPart_length_le t _

/-- A number has at least one digit. -/
theorem number_length_le (negative : Bool) (c : Char) (s : List Char) :
    (number negative (c :: s)).2.length ≤ s.length := by
  have h1 := Decimal.splitDigits_length (c :: s)
  unfold number
  simp only
  split
  · rw [missingDigit_snd]; simp
  · simp
  · next h2 h3 =>
    have h4 := fractionPart_length_le ⟨negative, (Decimal.splitDigits (c :: s)).1, none, none⟩
      (Decimal.splitDigits (c :: s)).2
    have h5 : (Decimal.splitDigits (c :: s)).1.length ≠ 0 := fun h0 =>
      h2 (List.length_eq_zero_iff.1 h0)
    simp only [List.length_cons] at h1
    omega

theorem number_length_le' (negative : Bool) (s : List Char) :
    (number negative s).2.length ≤ s.length := by
  cases s with
  | nil => exact Nat.le_refl _
  | cons c s =>
    have := number_length_le negative c s
    simp only [List.length_cons]
    omega

theorem StringState.broken_snd (f : Fault) (st : StringState) : (st.broken f).2 = [] := by
  cases st <;> rfl

theorem string_length_le (st : StringState) (s : List Char) : (string st s).2.length ≤ s.length := by
  fun_induction string st s <;> simp_all [StringState.broken_snd] <;> omega

/-- A token has at least one character. -/
theorem tokenAt_length_le (c : Char) (s : List Char) : (tokenAt c s).2.length ≤ s.length := by
  unfold tokenAt
  split
  · exact Nat.le_refl _
  · exact Nat.le_refl _
  · exact Nat.le_refl _
  · exact Nat.le_refl _
  · exact Nat.le_refl _
  · exact Nat.le_refl _
  · exact string_length_le _ _
  · exact literal_length_le _ _ _
  · exact literal_length_le _ _ _
  · exact literal_length_le _ _ _
  · exact number_length_le' _ _
  · split
    · exact number_length_le _ _ _
    · exact Nat.zero_le _

/-- The tokens of a text, up to the first broken one. -/
def tokens (s : List Char) : List Token :=
  match _h : s.dropWhile isSpace with
  | [] => []
  | c :: t => (tokenAt c t).1 :: tokens (tokenAt c t).2
termination_by s.length
decreasing_by
  have h1 := congrArg List.length (List.takeWhile_append_dropWhile (p := isSpace) (l := s))
  have h2 := tokenAt_length_le c t
  rw [List.length_append, _h, List.length_cons] at h1
  omega

end Json

end VectorIcon

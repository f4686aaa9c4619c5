/-
  VectorIcon.Xml.Token
  ────────────────────────────────
  **THE TOKENS OF A DOCUMENT.**

  A document is a row of tags, character data, comments and processing
  instructions.  A token holds its text as it was written: references are not
  replaced and qualifiers not resolved, that belongs to the element a token is
  part of (`VectorIcon.Xml.Document`).
-/
import VectorIcon.Scan
import VectorIcon.Xml.Character

namespace VectorIcon

namespace Xml

/-! ## §1. Faults. -/

/-- Why a text is not a well formed document. -/
inductive Fault where
  | syntaxError
  | badReference
  | reservedNamespace
  | unboundQualifier
  | duplicateNamespace
  | duplicateAttribute
  | mismatchedTag
  | unclosedElement
  | outsideRoot
  | missingRoot
deriving DecidableEq, Repr, Inhabited

/-- Reads characters. -/
abbrev Reading (α : Type) := Scan Char Fault α

/-! ## §2. Pieces of text. -/

/-- The text after a literal, none if it does not begin with it. -/
def dropLiteral? : List Char → List Char → Option (List Char)
  | [], s => some s
  | _ :: _, [] => none
  | c :: cs, d :: s => if c = d then dropLiteral? cs s else none

/-- The text before the first occurrence of a mark and the text after it. -/
def splitAt? (mark : List Char) : List Char → Option (List Char × List Char)
  | [] => if mark.isEmpty then some ([], []) else none
  | c :: s =>
    match dropLiteral? mark (c :: s) with
    | some r => some ([], r)
    | none => (splitAt? mark s).map fun r => (c :: r.1, r.2)

/-- Whether a text has an occurrence of a mark. -/
def contains (mark s : List Char) : Bool := (splitAt? mark s).isSome

/-- Read a literal. -/
def literal (cs : List Char) : Reading Unit := fun s =>
  match dropLiteral? cs s with
  | some r => .ok ((), r)
  | none => .error .syntaxError

/-- Skip white space; true if there was any. -/
def spaces : Reading Bool := fun s =>
  .ok (!(s.takeWhile isSpace).isEmpty, s.dropWhile isSpace)

/-- Read the characters of a class. -/
def charsWhile (p : Char → Bool) : Reading (List Char) := fun s =>
  let cs := s.takeWhile p
  if cs.all isChar then .ok (cs, s.dropWhile p) else .error .syntaxError

/-- Read up to a mark and the mark. -/
def charsUntil (mark : List Char) : Reading (List Char) := fun s =>
  match splitAt? mark s with
  | some (cs, r) => if cs.all isChar then .ok (cs, r) else .error .syntaxError
  | none => .error .syntaxError

/-! ## §3. Names. -/

/-- A name with its qualifier, which is empty if there is none. -/
structure QName where
  qualifier : List Char
  localName : List Char
deriving DecidableEq, Repr, Inhabited

/-- Whether a text is empty or begins as a name does. -/
def startsName : List Char → Bool
  | [] => true
  | c :: _ => isNameStart c

/-- Read a name with any number of colons. -/
def name : Reading (List Char) := fun s =>
  let cs := s.takeWhile isNameChar
  if cs.isEmpty || !startsName cs then .error .syntaxError
  else .ok (cs, s.dropWhile isNameChar)

/-- Split a name at its first colon. -/
def splitColon (cs : List Char) : QName :=
  match splitAt? [':'] cs with
  | some (q, l) => ⟨q, l⟩
  | none => ⟨[], cs⟩

/-- Read a name with at most one colon. -/
def qname : Reading QName := fun s =>
  let cs := s.takeWhile isNameChar
  let q := splitColon cs
  if q.localName.isEmpty || !startsName q.localName || !startsName q.qualifier ||
      q.localName.contains ':' then .error .syntaxError
  else .ok (q, s.dropWhile isNameChar)

/-! ## §4. Attributes. -/

/-- An attribute as it was written. -/
structure RawAttribute where
  name : QName
  value : List Char
deriving DecidableEq, Repr, Inhabited

/-- Read a quoted text without `<`. -/
def quotedValue : Reading (List Char) := fun s =>
  match s with
  | c :: t =>
    if c = '"' ∨ c = '\'' then
      (do
        let value ← charsWhile fun d => d != c && d != '<'
        literal [c]
        return value : Reading (List Char)) t
    else .error .syntaxError
  | [] => .error .syntaxError

/-- Read an attribute. -/
def tagAttribute : Reading RawAttribute := do
  let name ← qname
  let _ ← spaces
  literal ['=']
  let _ ← spaces
  let value ← quotedValue
  return ⟨name, value⟩

/-- What follows the name of a tag. -/
inductive TagPart where
  | pair (attr : RawAttribute)
  /-- The end of the tag, which may end the element too. -/
  | tagEnd (endsElement : Bool)

/-- Whether the part ends the tag. -/
def TagPart.isEnd : TagPart → Bool
  | .tagEnd _ => true
  | .pair _ => false

/-- Read the end of a tag, or an attribute if white space precedes it. -/
def tagPartAfter (spaced : Bool) : Reading TagPart := fun s =>
  match s with
  | '>' :: t => .ok (.tagEnd false, t)
  | '/' :: '>' :: t => .ok (.tagEnd true, t)
  | _ =>
    if spaced then (do return .pair (← tagAttribute) : Reading TagPart) s
    else .error .syntaxError

/-- Read a part of a tag. -/
def tagPart : Reading TagPart := do
  let spaced ← spaces
  tagPartAfter spaced

/-! ## §5. Progress. -/

theorem dropLiteral?_length {cs s r : List Char} (h : dropLiteral? cs s = some r) :
    r.length + cs.length = s.length := by
  fun_induction dropLiteral? cs s with
  | case1 => cases h; rfl
  | case2 => cases h
  | case3 cs d s ih => have := ih h; simp only [List.length_cons]; omega
  | case4 => cases h

theorem splitAt?_length {mark s : List Char} {r : List Char × List Char}
    (h : splitAt? mark s = some r) : r.2.length ≤ s.length := by
  fun_induction splitAt? mark s generalizing r with
  | case1 => cases h; simp
  | case2 => cases h
  | case3 c s t ht => cases h; have := dropLiteral?_length ht; simp only; omega
  | case4 c s ht ih =>
    obtain ⟨q, hq, rfl⟩ := Option.map_eq_some_iff.1 h
    have := ih hq
    simp only [List.length_cons]
    omega

theorem literal_takes {c : Char} {cs : List Char} : Scan.Takes (literal (c :: cs)) := by
  intro s a t h
  unfold literal at h
  split at h
  · next r hr =>
    cases h
    have := dropLiteral?_length hr
    simp only [List.length_cons] at this
    omega
  · cases h

theorem spaces_keeps : Scan.Keeps spaces := by
  intro s a t h
  cases h
  have := Scan.length_takeWhile_add_dropWhile isSpace s
  omega

theorem charsWhile_keeps (p : Char → Bool) : Scan.Keeps (charsWhile p) := by
  intro s a t h
  unfold charsWhile at h
  simp only at h
  split at h
  · cases h
    have := Scan.length_takeWhile_add_dropWhile p s
    omega
  · cases h

theorem charsUntil_keeps (mark : List Char) : Scan.Keeps (charsUntil mark) := by
  intro s a t h
  unfold charsUntil at h
  split at h
  · next hr =>
    split at h
    · cases h; exact splitAt?_length hr
    · cases h
  · cases h

theorem name_takes : Scan.Takes name := by
  intro s a t h
  have := Scan.length_takeWhile_add_dropWhile isNameChar s
  unfold name at h
  simp only at h
  split at h
  · cases h
  · next hne =>
    cases h
    simp only [Bool.or_eq_true, List.isEmpty_iff_length_eq_zero, not_or] at hne
    omega

theorem qname_takes : Scan.Takes qname := by
  intro s a t h
  have := Scan.length_takeWhile_add_dropWhile isNameChar s
  unfold qname at h
  simp only at h
  split at h
  · cases h
  · next hne =>
    cases h
    have : (s.takeWhile isNameChar).length ≠ 0 := by
      intro h0
      rw [List.length_eq_zero_iff.1 h0] at hne
      exact hne rfl
    omega

theorem quotedValue_keeps : Scan.Keeps quotedValue := by
  intro s a t h
  unfold quotedValue at h
  split at h
  · next c u =>
    split at h
    · have := ((charsWhile_keeps _).bind fun _ => literal_takes.keeps.bind fun _ =>
        Scan.keeps_pure _) u a t h
      simp only [List.length_cons]
      omega
    · cases h
  · cases h

theorem tagAttribute_takes : Scan.Takes tagAttribute :=
  qname_takes.bind fun _ => spaces_keeps.bind fun _ => literal_takes.keeps.bind fun _ =>
    spaces_keeps.bind fun _ => quotedValue_keeps.bind fun _ => Scan.keeps_pure _

theorem tagPartAfter_takes (spaced : Bool) : Scan.Takes (tagPartAfter spaced) := by
  intro s a t h
  unfold tagPartAfter at h
  split at h
  · cases h; simp
  · cases h; simp only [List.length_cons]; omega
  · split at h
    · exact (tagAttribute_takes.bind fun _ => Scan.keeps_pure _) _ _ _ h
    · cases h

theorem tagPart_takes : Scan.Takes tagPart := spaces_keeps.bind_takes tagPartAfter_takes

/-! ## §6. Tokens. -/

/-- A token of a document. -/
inductive Token where
  | startTag (name : QName) (attributes : List RawAttribute) (endsElement : Bool)
  | endTag (name : QName)
  /-- Character data with references. -/
  | text (raw : List Char)
  /-- Character data without references. -/
  | cdata (content : List Char)
  | comment (content : List Char)
  | instruction (target content : List Char)

/-- The attributes among the parts of a tag. -/
def attributesOf (parts : List TagPart) : List RawAttribute :=
  parts.filterMap fun p => match p with
    | .pair a => some a
    | .tagEnd _ => none

/-- Whether the tag ends its element. -/
def endsElementOf (parts : List TagPart) : Bool :=
  parts.any fun p => match p with
    | .pair _ => false
    | .tagEnd e => e

/-- Read a start tag after `<`. -/
def startTag : Reading Token := do
  let name ← qname
  let parts ← (Scan.through tagPart tagPart_takes TagPart.isEnd : Reading (List TagPart))
  return .startTag name (attributesOf parts) (endsElementOf parts)

/-- Read an end tag after its first two characters. -/
def endTag : Reading Token := do
  let name ← qname
  let _ ← spaces
  literal ['>']
  return .endTag name

/-- Read a processing instruction after its first two characters. -/
def instruction : Reading Token := do
  let target ← name
  let _ ← spaces
  return .instruction target (← charsUntil ['?', '>'])

/-- Read a comment after `<!--`; two hyphens in a row may only end it. -/
def comment : Reading Token := do
  let content ← charsUntil ['-', '-', '>']
  if contains ['-', '-'] content || content.getLast? = some '-' then
    fun _ => .error .syntaxError
  else return .comment content

/-- Read character data. -/
def text : Reading Token := do
  let raw ← charsWhile (· != '<')
  if contains [']', ']', '>'] raw then fun _ => .error .syntaxError
  else return .text raw

/-- Read a token. -/
def token : Reading Token := fun s =>
  match s with
  | '<' :: '!' :: t =>
    match dropLiteral? ['-', '-'] t with
    | some u => comment u
    | none =>
      match dropLiteral? "[CDATA[".toList t with
      | some u => (do return .cdata (← charsUntil [']', ']', '>']) : Reading Token) u
      | none => .error .syntaxError
  | '<' :: '?' :: t =>
    -- the declaration stands only at the very beginning
    if (dropLiteral? "xml ".toList t).isSome then .error .syntaxError else instruction t
  | '<' :: '/' :: t => endTag t
  | '<' :: t => startTag t
  | [] => .error .syntaxError
  | c :: t => if c = '<' then .error .syntaxError else text (c :: t)

theorem startTag_keeps : Scan.Keeps startTag :=
  qname_takes.keeps.bind fun _ =>
    (Scan.through_takes tagPart_takes TagPart.isEnd).keeps.bind fun _ => Scan.keeps_pure _

theorem endTag_keeps : Scan.Keeps endTag :=
  qname_takes.keeps.bind fun _ => spaces_keeps.bind fun _ => literal_takes.keeps.bind fun _ =>
    Scan.keeps_pure _

theorem instruction_keeps : Scan.Keeps instruction :=
  name_takes.keeps.bind fun _ => spaces_keeps.bind fun _ => (charsUntil_keeps _).bind fun _ =>
    Scan.keeps_pure _

/-- What always fails leaves nothing. -/
theorem keeps_error {α : Type} (f : Fault) : Scan.Keeps (fun _ => .error f : Reading α) := by
  intro s a t h
  cases h

theorem comment_keeps : Scan.Keeps comment := by
  refine (charsUntil_keeps _).bind fun content => ?_
  split
  · exact keeps_error _
  · exact Scan.keeps_pure _

/-- Character data which does not begin with `<` is not empty. -/
theorem text_length_lt {c : Char} {s t : List Char} {a : Token} (hc : c ≠ '<')
    (h : text (c :: s) = .ok (a, t)) : t.length < (c :: s).length := by
  obtain ⟨raw, u, h1, h2⟩ := Scan.bind_ok.1 h
  have hu : u.length < (c :: s).length := by
    unfold charsWhile at h1
    simp only at h1
    split at h1
    · cases h1
      have hp : (c != '<') = true := by simpa using hc
      have hd : (c :: s).dropWhile (· != '<') = s.dropWhile (· != '<') := by
        simp only [List.dropWhile_cons, hp, ↓reduceIte]
      rw [hd]
      have := Scan.length_takeWhile_add_dropWhile (· != '<') s
      simp only [List.length_cons]
      omega
    · cases h1
  have ht : t.length ≤ u.length := by
    split at h2
    · cases h2
    · exact Nat.le_of_eq (by rw [(Scan.pure_ok.1 h2).2])
  omega

theorem token_takes : Scan.Takes token := by
  intro s a t h
  unfold token at h
  split at h
  · next u =>
    split at h
    · next v hv =>
      have h1 := dropLiteral?_length hv
      have h2 := comment_keeps v a t h
      simp only [List.length_cons] at *
      omega
    · split at h
      · next v hv =>
        have h1 := dropLiteral?_length hv
        have h2 := ((charsUntil_keeps _).bind fun _ => Scan.keeps_pure _) v a t h
        simp only [List.length_cons] at *
        omega
      · cases h
  · next u =>
    split at h
    · cases h
    · have := instruction_keeps u a t h
      simp only [List.length_cons]
      omega
  · next u => have := endTag_keeps u a t h; simp only [List.length_cons]; omega
  · next u _ _ _ => have := startTag_keeps u a t h; simp only [List.length_cons]; omega
  · cases h
  · next c u =>
    split at h
    · cases h
    · next hc => exact text_length_lt hc h

/-! ## §7. The declaration. -/

/-- Read an attribute of the declaration whose name begins with a literal. -/
def declared (literalName : List Char) : Reading Bool := fun s =>
  if (dropLiteral? literalName s).isSome then (do let _ ← tagAttribute; return true : Reading Bool) s
  else .ok (false, s)

/-- White space, which may be missing only before the end of the declaration. -/
def declarationSpace : Reading Unit := do
  let spaced ← spaces
  if spaced then return ()
  else fun s => if s.isEmpty || (dropLiteral? ['?', '>'] s).isSome then .ok ((), s)
    else .error .syntaxError

/-- Read the declaration after `<?xml`: a version, then perhaps an encoding and
    whether the document stands alone. -/
def declaration : Reading Unit := do
  declarationSpace
  let version ← declared "version".toList
  if version then
    declarationSpace
    let encoding ← declared "encoding".toList
    if encoding then declarationSpace
    let _ ← declared "standalone".toList
    let _ ← spaces
    literal ['?', '>']
  else fun _ => .error .syntaxError

/-- The text after the byte order mark, if there is one. -/
def dropMark : List Char → List Char
  | c :: s => if c.toNat = 0xfeff then s else c :: s
  | [] => []

/-- The tokens of a document. -/
def tokens (s : List Char) : Except Fault (List Token) :=
  let s := dropMark s
  match dropLiteral? "<?xml ".toList s with
  | none => Scan.toEnd token token_takes s
  | some _ =>
    match declaration (s.drop 5) with
    | .error f => .error f
    | .ok ((), rest) => Scan.toEnd token token_takes rest

end Xml

end VectorIcon

/-
  VectorIcon.Path.Parser
  ────────────────────────────────
  **READING PATH DATA.**

  Path data is a row of command groups: a letter and its operands, or operands
  alone which continue the letter before them.  Separators may stand before
  every letter and operand and at the end; a flag of an arc is one character.
  The first group has to be a move.

  A `Reader` holds the text which is still to be read.  `Reader.next` reads one
  command and gives nothing after the first fault; every command shortens the
  text (`Reader.command_some`), so that `Reader.readAll` terminates.  A fault
  keeps the text at which it was found; its byte offset is the size of what
  precedes that text.
-/
import VectorIcon.Scan
import VectorIcon.Path.Segment
import VectorIcon.Text.Utf8

namespace VectorIcon

namespace Path

/-! ## §1. Faults. -/

/-- What is wrong with path data. -/
inductive FaultCause where
  | expectedNumber
  | malformedExponent
  | numberOutOfRange
  | expectedFlag
  | unknownCommand
  | expectedCommand
  | missingMove
deriving DecidableEq, Repr, Inhabited

/-- The wording of a cause. -/
def FaultCause.message : FaultCause → String
  | .expectedNumber => "expected number"
  | .malformedExponent => "malformed exponent"
  | .numberOutOfRange => "number out of range"
  | .expectedFlag => "expected flag"
  | .unknownCommand => "unknown command"
  | .expectedCommand => "expected command"
  | .missingMove => "path data must start with a move command"

/-- A cause and the text which begins with the offending token. -/
structure Fault where
  cause : FaultCause
  rest : List Char
deriving DecidableEq, Repr, Inhabited

/-- What a piece of the grammar reads. -/
abbrev Reading (α : Type) := Scan Char Fault α

/-! ## §2. Tokens. -/

/-- The characters which separate and mean nothing else. -/
def isSeparator (c : Char) : Bool :=
  c = ' ' || c = '\t' || c = '\r' || c = '\n' || c = '\x0c' || c = ','

/-- Drop leading separators. -/
def skipSeparators (cs : List Char) : List Char := cs.dropWhile isSeparator

/-- Read a finite number. -/
def number : Reading Scalar := fun s =>
  let cs := skipSeparators s
  match Decimal.scan cs with
  | .error .missingDigits => .error ⟨.expectedNumber, cs⟩
  | .error .missingExponent => .error ⟨.malformedExponent, cs⟩
  | .ok (d, r) =>
    if d.toScalar.isFinite then .ok (d.toScalar, r) else .error ⟨.numberOutOfRange, cs⟩

/-- Read two numbers. -/
def point : Reading Point := do
  let x ← number
  let y ← number
  return ⟨x, y⟩

/-- Read a flag. -/
def flag : Reading Bool := fun s =>
  match skipSeparators s with
  | '0' :: r => .ok (false, r)
  | '1' :: r => .ok (true, r)
  | r => .error ⟨.expectedFlag, r⟩

/-- Read the shape of an arc. -/
def arcShape : Reading ArcShape := do
  let radii ← point
  let rotation ← number
  let large ← flag
  let sweep ← flag
  return ⟨radii, rotation, large, sweep⟩

/-- Read the operands which a letter asks for. -/
def operands (l : CommandLetter) : Reading Command :=
  match l.kind with
  | .move => return .moveTo l.frame (← point)
  | .line => return .lineTo l.frame (← point)
  | .horizontal => return .horizontalTo l.frame (← number)
  | .vertical => return .verticalTo l.frame (← number)
  | .cubic => return .cubicTo l.frame (← point) (← point) (← point)
  | .smoothCubic => return .smoothCubicTo l.frame (← point) (← point)
  | .quad => return .quadTo l.frame (← point) (← point)
  | .smoothQuad => return .smoothQuadTo l.frame (← point)
  | .arc => return .arcTo l.frame (← arcShape) (← point)
  | .close => return .close

/-! ## §3. Commands. -/

/-- The ASCII letters. -/
def isAsciiLetter (c : Char) : Bool :=
  (decide ('a' ≤ c) && decide (c ≤ 'z')) || (decide ('A' ≤ c) && decide (c ≤ 'Z'))

/-- The text still to be read and what earlier commands leave behind. -/
structure Reader where
  rest : List Char
  /-- The letter which operands without a letter continue. -/
  continued : Option CommandLetter
  /-- Whether a move was read. -/
  started : Bool
  /-- Whether a fault was found; nothing is read after it. -/
  failed : Bool
deriving Inhabited

namespace Reader

/-- The reader of a whole text. -/
def ofChars (cs : List Char) : Reader := ⟨cs, none, false, false⟩

/-- The letter the text begins with, or the continued one if it begins with
    none, and the text of the operands. -/
def letter (r : Reader) : Reading CommandLetter := fun cs =>
  match cs with
  | [] => .error ⟨.expectedCommand, []⟩
  | c :: t =>
    match CommandLetter.ofChar? c with
    | some l =>
      if r.started || l.kind = .move then .ok (l, t) else .error ⟨.missingMove, cs⟩
    | none =>
      if isAsciiLetter c then .error ⟨.unknownCommand, cs⟩
      else match r.continued with
        | some l =>
          if r.started || l.kind = .move then .ok (l, cs) else .error ⟨.missingMove, cs⟩
        | none => .error ⟨.expectedCommand, cs⟩

/-- The reader after a command with the given letter. -/
def afterCommand (l : CommandLetter) (rest : List Char) : Reader := ⟨rest, l.continued?, true, false⟩

/-- Read one command; none at the end of the text. -/
def command (r : Reader) : Except Fault (Option (Command × Reader)) :=
  match skipSeparators r.rest with
  | [] => .ok none
  | cs =>
    match (do let l ← r.letter; return (l, ← operands l) : Reading _) cs with
    | .error f => .error f
    | .ok ((l, c), rest) => .ok (some (c, afterCommand l rest))

/-- The next command or fault, and the reader after it.  At the end and after
    a fault there is none. -/
def next (r : Reader) : Option (Except Fault Command) × Reader :=
  if r.failed then (none, r)
  else match r.command with
    | .error f => (some (.error f), { r with failed := true })
    | .ok none => (none, r)
    | .ok (some (c, r)) => (some (.ok c), r)

end Reader

/-! ## §4. Progress. -/

theorem skipSeparators_length_le (cs : List Char) : (skipSeparators cs).length ≤ cs.length := by
  have := Scan.length_takeWhile_add_dropWhile isSeparator cs
  unfold skipSeparators
  omega

theorem number_takes : Scan.Takes number := by
  intro cs x r h
  have hs := skipSeparators_length_le cs
  unfold number at h
  simp only at h
  split at h
  · cases h
  · cases h
  · next d t hscan =>
    split at h
    · cases h
      have := Decimal.scan_length_lt hscan
      omega
    · cases h

theorem point_takes : Scan.Takes point :=
  number_takes.bind fun _ => (number_takes.bind fun _ => Scan.keeps_pure _).keeps

theorem flag_takes : Scan.Takes flag := by
  intro cs b r h
  have hs := skipSeparators_length_le cs
  unfold flag at h
  split at h
  · next heq => cases h; rw [heq] at hs; exact hs
  · next heq => cases h; rw [heq] at hs; exact hs
  · cases h

theorem arcShape_takes : Scan.Takes arcShape :=
  point_takes.bind fun _ => (number_takes.bind fun _ => (flag_takes.bind fun _ =>
    (flag_takes.bind fun _ => Scan.keeps_pure _).keeps).keeps).keeps

/-- Operands take at least one character, except that a close has none. -/
theorem operands_takes {l : CommandLetter} (h : l.kind ≠ .close) : Scan.Takes (operands l) := by
  unfold operands
  split
  · exact point_takes.bind fun _ => Scan.keeps_pure _
  · exact point_takes.bind fun _ => Scan.keeps_pure _
  · exact number_takes.bind fun _ => Scan.keeps_pure _
  · exact number_takes.bind fun _ => Scan.keeps_pure _
  · exact point_takes.bind fun _ => (point_takes.bind fun _ =>
      (point_takes.bind fun _ => Scan.keeps_pure _).keeps).keeps
  · exact point_takes.bind fun _ => (point_takes.bind fun _ => Scan.keeps_pure _).keeps
  · exact point_takes.bind fun _ => (point_takes.bind fun _ => Scan.keeps_pure _).keeps
  · exact point_takes.bind fun _ => Scan.keeps_pure _
  · exact arcShape_takes.bind fun _ => (point_takes.bind fun _ => Scan.keeps_pure _).keeps
  · next hk => exact absurd hk h

theorem operands_keeps (l : CommandLetter) : Scan.Keeps (operands l) := by
  by_cases h : l.kind = .close
  · unfold operands
    rw [h]
    exact Scan.keeps_pure _
  · exact (operands_takes h).keeps

namespace Reader

/-- A letter is either read or continued. -/
theorem letter_ok {r : Reader} {cs t : List Char} {l : CommandLetter}
    (h : r.letter cs = .ok (l, t)) : t.length < cs.length ∨ (r.continued = some l ∧ t = cs) := by
  unfold letter at h
  split at h
  · cases h
  · split at h
    · split at h
      · cases h; simp
      · cases h
    · split at h
      · cases h
      · split at h
        · split at h
          · cases h; simp [*]
          · cases h
        · cases h

/-- Nothing continues a close, and no letter is continued as one. -/
def WellFormed (r : Reader) : Prop := ∀ l, r.continued = some l → l.kind ≠ .close

theorem wellFormed_ofChars (cs : List Char) : (ofChars cs).WellFormed := by
  intro l h
  cases h

theorem wellFormed_afterCommand (l : CommandLetter) (rest : List Char) :
    (afterCommand l rest).WellFormed := by
  intro k h
  obtain ⟨kind, frame⟩ := l
  cases kind <;> simp [afterCommand, CommandLetter.continued?] at h <;> simp [← h]

/-- A command which is read leaves a shorter text and a well formed reader. -/
theorem command_some {r s : Reader} {c : Command} (hr : r.WellFormed)
    (h : r.command = .ok (some (c, s))) : s.rest.length < r.rest.length ∧ s.WellFormed := by
  have hs := skipSeparators_length_le r.rest
  unfold command at h
  split at h
  · cases h
  · split at h
    · cases h
    · next l c' rest hrun =>
      cases h
      refine ⟨?_, wellFormed_afterCommand _ _⟩
      obtain ⟨l', u, hl, h2⟩ := Scan.bind_ok.1 hrun
      obtain ⟨c'', v, hc, h3⟩ := Scan.bind_ok.1 h2
      have hp := Scan.pure_ok.1 h3
      show rest.length < r.rest.length
      rw [hp.2]
      rcases letter_ok hl with hlt | ⟨hcont, heq⟩
      · have := operands_keeps l' u c'' v hc
        omega
      · have := operands_takes (hr l' hcont) u c'' v hc
        rw [heq] at this
        omega

end Reader

/-! ## §5. Whole path data. -/

/-- The commands before the first fault, and the fault. -/
structure Parsed where
  commands : List Command
  fault : Option Fault

/-- Read all commands of a well formed reader. -/
def Reader.readAll (r : Reader) (h : r.WellFormed) : Parsed :=
  match hc : r.command with
  | .error f => ⟨[], some f⟩
  | .ok none => ⟨[], none⟩
  | .ok (some (c, s)) =>
    let p := readAll s (command_some h hc).2
    ⟨c :: p.commands, p.fault⟩
termination_by r.rest.length
decreasing_by exact (command_some h hc).1

/-- Read a text as path data, as far as it goes. -/
def parseChars (cs : List Char) : Parsed :=
  (Reader.ofChars cs).readAll (Reader.wellFormed_ofChars cs)

/-! ## §6. Errors with their place. -/

/-- How many characters of the text are shown with an error. -/
def fragmentLength : Nat := 16

/-- Why a text is not path data. -/
structure Error where
  cause : FaultCause
  /-- Byte offset of the offending token. -/
  offset : Nat
  /-- The text which begins with the offending token. -/
  fragment : String
deriving DecidableEq, Repr, Inhabited

/-- The error of a fault in a text: what remained at the fault ends the text. -/
def Fault.toError (f : Fault) (text : List Char) : Error :=
  ⟨f.cause, Text.byteLength text - Text.byteLength f.rest, String.ofList (f.rest.take fragmentLength)⟩

/-- Read a text as path data. -/
def parse (d : String) : Except Error (List Command) :=
  let cs := d.toList
  let p := parseChars cs
  match p.fault with
  | none => .ok p.commands
  | some f => .error (f.toError cs)

end Path

end VectorIcon

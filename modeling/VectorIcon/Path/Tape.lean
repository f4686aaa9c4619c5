/-
  VectorIcon.Path.Tape
  ────────────────────────────────
  **READING PATH DATA BY ITS BYTES.**

  A tape holds all bytes of a text and the offset of the next one.  A step reads
  what is there and moves the offset; it leaves the tape where it got to, also when
  it is refused, and what it remembers stays changed.  A number is found byte by
  byte and then handed to a library.

  Whatever the library, the offset never moves back and never past the end, and
  whatever is read moves it (`Step.command_some`); so that `Tape.collect`, which
  asks for one command after the other, comes to an end.
-/
import VectorIcon.Number.Library
import VectorIcon.Path.Parser
import VectorIcon.Text.Range

namespace VectorIcon

namespace Path

/-! ## §1. Tapes. -/

/-- An error as it is reported. -/
structure Report where
  reason : String
  /-- Byte offset of the offending token. -/
  offset : Nat
  /-- The text which begins with the offending token. -/
  fragment : String
deriving DecidableEq, Repr, Inhabited

/-- What is reported of an error. -/
def Error.report (e : Error) : Report := ⟨e.cause.message, e.offset, e.fragment⟩

/-- The bytes of a text, the offset of the next one and what earlier commands leave
    behind. -/
structure Tape where
  bytes : List UInt8
  offset : Nat
  /-- The letter which operands without a letter continue. -/
  continued : Option CommandLetter
  /-- Whether a letter was accepted. -/
  started : Bool
  /-- Whether an error was reported; nothing more is given after it. -/
  failed : Bool
deriving Inhabited

namespace Tape

/-- The tape of a text, at its beginning. -/
def ofText (d : String) : Tape := ⟨Text.bytes d.toList, 0, none, false, false⟩

/-- The next byte, taken for the character with its code. -/
def peek (t : Tape) : Option Char := t.bytes[t.offset]?.map Char.ofUInt8

/-- Move by a number of bytes. -/
def advance (t : Tape) (count : Nat) : Tape := { t with offset := t.offset + count }

/-- Remember a letter. -/
def accept (t : Tape) (l : CommandLetter) : Tape :=
  { t with started := true, continued := l.continued? }

theorem peek_some {t : Tape} {c : Char} (h : t.peek = some c) : t.offset < t.bytes.length := by
  obtain ⟨b, hb, -⟩ := Option.map_eq_some_iff.1 h
  exact (List.getElem?_eq_some_iff.1 hb).1

/-- Move past the bytes of a class. -/
def passWhile (p : Char → Bool) (t : Tape) : Tape :=
  match _ : t.peek with
  | some c => if p c then passWhile p (t.advance 1) else t
  | none => t
termination_by t.bytes.length - t.offset
decreasing_by
  have := peek_some ‹_›
  show t.bytes.length - (t.offset + 1) < _
  omega

theorem passWhile_some {p : Char → Bool} {t : Tape} {c : Char} (h : t.peek = some c) :
    t.passWhile p = if p c then (t.advance 1).passWhile p else t := by
  rw [passWhile]
  split <;> simp_all

theorem passWhile_none {p : Char → Bool} {t : Tape} (h : t.peek = none) : t.passWhile p = t := by
  rw [passWhile]
  split <;> simp_all

/-- The report of an error at an offset. -/
def reportAt (t : Tape) (offset : Nat) (reason : String) : Report :=
  let rest := t.bytes.drop (min offset t.bytes.length)
  ⟨reason, offset, String.ofList ((Text.Utf8.lossy rest).take fragmentLength)⟩

end Tape

/-! ## §2. Steps. -/

/-- Gives an `α` or is refused; the tape is left as it is then. -/
abbrev Step (α : Type) := ExceptT Report (StateM Tape) α

namespace Step

/-- What comes of a step on a tape, and the tape after it. -/
def start {α : Type} (p : Step α) (t : Tape) : Except Report α × Tape := p.run.run t

/-- Be refused because of what is at an offset. -/
def refuseAt {α : Type} (offset : Nat) (reason : String) : Step α := do
  throw ((← get).reportAt offset reason)

/-- Be refused because of what comes next. -/
def refuse {α : Type} (reason : String) : Step α := do
  refuseAt (← get).offset reason

def separators : Step Unit := modify (Tape.passWhile isSeparator)

/-- Pass digits, and tell whether there are any. -/
def digits : Step Bool := do
  let first := (← get).offset
  modify (Tape.passWhile Decimal.isDigit)
  return decide (first < (← get).offset)

def sign : Step Unit := do
  match (← get).peek with
  | some '-' | some '+' => modify (·.advance 1)
  | _ => return ()

/-- Pass a point and digits, and tell whether there are digits. -/
def fraction : Step Bool := do
  match (← get).peek with
  | some '.' =>
    modify (·.advance 1)
    digits
  | _ => return false

/-- Pass a sign, digits and a fraction, and tell whether there are digits. -/
def mantissa : Step Bool := do
  sign
  let whole ← digits
  let fraction ← fraction
  return whole || fraction

/-- Pass the digits of an exponent, of a number which begins at an offset. -/
def exponentDigits (first : Nat) : Step Unit := do
  sign
  if !(← digits) then refuseAt first "malformed exponent"

/-- Pass an exponent, if there is one, of a number which begins at an offset. -/
def exponent (first : Nat) : Step Unit := do
  match (← get).peek with
  | some 'e' | some 'E' =>
    modify (·.advance 1)
    exponentDigits first
  | _ => return ()

/-- Move back to an offset and be refused there if there are no digits. -/
def requireDigits (first : Nat) (found : Bool) : Step Unit := do
  if !found then
    modify ({ · with offset := first })
    refuse "expected number"

section

variable (library : NumberLibrary)

/-- The value of the bytes from an offset on. -/
def value (first : Nat) : Step Scalar := do
  let t ← get
  match library ((t.bytes.drop first).take (t.offset - first)) with
  | none => refuseAt first "malformed number"
  | some x => if x.isFinite then return x else refuseAt first "number out of range"

/-- A number which begins here. -/
def numeral : Step Scalar := do
  let first := (← get).offset
  requireDigits first (← mantissa)
  exponent first
  value library first

def scalar : Step Scalar := do
  separators
  numeral library

def point : Step Point := do
  let x ← scalar library
  let y ← scalar library
  return ⟨x, y⟩

def flag : Step Bool := do
  separators
  match (← get).peek with
  | some '0' =>
    modify (·.advance 1)
    return false
  | some '1' =>
    modify (·.advance 1)
    return true
  | _ => refuse "expected flag"

def arcShape : Step ArcShape := do
  let radii ← point library
  let rotation ← scalar library
  let large ← flag
  let sweep ← flag
  return ⟨radii, rotation, large, sweep⟩

/-- The operands which a letter asks for. -/
def operands (l : CommandLetter) : Step Command :=
  match l.kind with
  | .move => return .moveTo l.frame (← point library)
  | .line => return .lineTo l.frame (← point library)
  | .horizontal => return .horizontalTo l.frame (← scalar library)
  | .vertical => return .verticalTo l.frame (← scalar library)
  | .cubic => return .cubicTo l.frame (← point library) (← point library) (← point library)
  | .smoothCubic => return .smoothCubicTo l.frame (← point library) (← point library)
  | .quad => return .quadTo l.frame (← point library) (← point library)
  | .smoothQuad => return .smoothQuadTo l.frame (← point library)
  | .arc => return .arcTo l.frame (← arcShape library) (← point library)
  | .close => return .close

/-- The letter which comes next, and whether it is written; otherwise the continued
    one. -/
def nextLetter : Step (CommandLetter × Bool) := do
  match (← get).peek with
  | some c =>
    match CommandLetter.ofChar? c with
    | some l => return (l, true)
    | none => if isAsciiLetter c then refuse "unknown command" else continuedLetter
  | none => continuedLetter
where
  continuedLetter : Step (CommandLetter × Bool) := do
    match (← get).continued with
    | some l => return (l, false)
    | none => refuse "expected command"

/-- Accept a letter, if the text begins with a move. -/
def letter : Step CommandLetter := do
  let (l, written) ← nextLetter
  if !(← get).started && l.kind != .move then
    refuse "path data must start with a move command"
  if written then modify (·.advance 1)
  modify (·.accept l)
  return l

/-- A letter and its operands. -/
def group : Step Command := do
  let l ← letter
  operands library l

/-- One command; none at the end of the text. -/
def command : Step (Option Command) := do
  separators
  if (← get).peek.isNone then return none
  return some (← group library)

end

/-! ## §3. Results of composed steps. -/

section

variable {α β : Type} {p : Step α} {f : α → Step β} {t s : Tape}

theorem start_bind_ok {a : α} (h : p.start t = (.ok a, s)) : (p >>= f).start t = (f a).start s := by
  show ExceptT.bindCont f (p.start t).1 (p.start t).2 = _
  rw [h]
  rfl

theorem start_bind_error {e : Report} (h : p.start t = (.error e, s)) :
    (p >>= f).start t = (.error e, s) := by
  show ExceptT.bindCont f (p.start t).1 (p.start t).2 = _
  rw [h]
  rfl

theorem start_get {f : Tape → Step β} (t : Tape) : (get >>= f).start t = (f t).start t := rfl

theorem start_pure (a : α) (t : Tape) : (pure a : Step α).start t = (.ok a, t) := rfl

theorem digits_start (t : Tape) : digits.start t =
    (.ok (decide (t.offset < (t.passWhile Decimal.isDigit).offset)), t.passWhile Decimal.isDigit) := rfl

end

end Step

/-! ## §4. Progress. -/

namespace Tape

/-- The offset is not past the end, and nothing continues a close. -/
structure WellFormed (t : Tape) : Prop where
  inside : t.offset ≤ t.bytes.length
  open_ : ∀ l, t.continued = some l → l.kind ≠ .close

/-- A tape of the same text, which has not moved back and is as well formed. -/
structure Onward (t s : Tape) : Prop where
  bytes : s.bytes = t.bytes
  forward : t.offset ≤ s.offset
  wellFormed : t.WellFormed → s.WellFormed

namespace Onward

variable {t s u : Tape}

theorem refl (t : Tape) : t.Onward t := ⟨rfl, Nat.le_refl _, id⟩

theorem trans (h : t.Onward s) (h' : s.Onward u) : t.Onward u :=
  ⟨h'.bytes.trans h.bytes, Nat.le_trans h.forward h'.forward,
    fun ht => h'.wellFormed (h.wellFormed ht)⟩

end Onward

theorem wellFormed_ofText (d : String) : (ofText d).WellFormed := ⟨Nat.zero_le _, nofun⟩

/-- A byte which is there can be passed. -/
theorem onward_advance {t : Tape} {c : Char} (h : t.peek = some c) : t.Onward (t.advance 1) :=
  ⟨rfl, Nat.le_add_right _ _, fun ht => ⟨peek_some h, ht.open_⟩⟩

theorem onward_passWhile (p : Char → Bool) (t : Tape) : t.Onward (t.passWhile p) := by
  fun_induction passWhile p t with
  | case1 t c h hp ih => exact (onward_advance h).trans ih
  | case2 t c h hp => exact .refl t
  | case3 t h => exact .refl t

end Tape

namespace Step

open Tape

section

variable {α β : Type}

/-- The step never moves back, nor past the end, whatever comes of it. -/
def Keeps (p : Step α) : Prop := ∀ t : Tape, t.Onward (p.start t).2

/-- Moreover, it moves whenever it gives something. -/
structure Takes (p : Step α) : Prop where
  keeps : p.Keeps
  moves : ∀ {t s : Tape} {a : α}, p.start t = (.ok a, s) → t.offset < s.offset

variable {p : Step α} {f : α → Step β}

theorem Keeps.ok (h : p.Keeps) {t s : Tape} {x : Except Report α} (hp : p.start t = (x, s)) :
    t.Onward s := by
  have := h t
  rwa [hp] at this

theorem keeps_pure (a : α) : Keeps (pure a : Step α) := fun t => .refl t

theorem keeps_refuseAt (first : Nat) (reason : String) : Keeps (refuseAt first reason : Step α) :=
  fun t => .refl t

theorem keeps_refuse (reason : String) : Keeps (refuse reason : Step α) := fun t => .refl t

/-- What two steps in a row keep is told by where the first one leaves the tape. -/
theorem onward_bind {t : Tape} (hp : t.Onward (p.start t).2)
    (hf : ∀ a s, p.start t = (.ok a, s) → s.Onward ((f a).start s).2) :
    t.Onward ((p >>= f).start t).2 := by
  match h : p.start t with
  | (.error e, s) =>
    rw [h] at hp
    rwa [start_bind_error h]
  | (.ok a, s) =>
    rw [h] at hp
    rw [start_bind_ok h]
    exact hp.trans (hf a s h)

theorem Keeps.bind (hp : p.Keeps) (hf : ∀ a, (f a).Keeps) : (p >>= f).Keeps :=
  fun t => onward_bind (hp t) fun a s _ => hf a s

theorem bind_start_ok {t u : Tape} {b : β} (h : (p >>= f).start t = (.ok b, u)) :
    ∃ a s, p.start t = (.ok a, s) ∧ (f a).start s = (.ok b, u) := by
  match hp : p.start t with
  | (.error e, s) =>
    rw [start_bind_error hp] at h
    cases h
  | (.ok a, s) =>
    rw [start_bind_ok hp] at h
    exact ⟨a, s, rfl, h⟩

theorem Takes.bind (hp : p.Takes) (hf : ∀ a, (f a).Keeps) : (p >>= f).Takes where
  keeps := hp.keeps.bind hf
  moves h := by
    obtain ⟨a, s, ha, hb⟩ := bind_start_ok h
    exact Nat.lt_of_lt_of_le (hp.moves ha) ((hf a).ok hb).forward

theorem Keeps.bind_takes (hp : p.Keeps) (hf : ∀ a, (f a).Takes) : (p >>= f).Takes where
  keeps := hp.bind fun a => (hf a).keeps
  moves h := by
    obtain ⟨a, s, ha, hb⟩ := bind_start_ok h
    exact Nat.lt_of_le_of_lt (hp.ok ha).forward ((hf a).moves hb)

end

theorem separators_keeps : separators.Keeps := onward_passWhile isSeparator

theorem digits_keeps : digits.Keeps := fun t => onward_passWhile Decimal.isDigit t

theorem sign_start (t : Tape) : ∃ s, sign.start t = (.ok (), s) ∧ t.Onward s := by
  rw [sign, start_get]
  split
  · next h => exact ⟨_, rfl, onward_advance h⟩
  · next h => exact ⟨_, rfl, onward_advance h⟩
  · exact ⟨t, rfl, .refl t⟩

theorem sign_keeps : sign.Keeps := by
  intro t
  obtain ⟨s, hs, honward⟩ := sign_start t
  rwa [hs]

/-- Whether there are digits after a point or not, they are passed. -/
theorem fraction_start (t : Tape) :
    ∃ found s, fraction.start t = (.ok found, s) ∧ t.Onward s ∧ (found = true → t.offset < s.offset) := by
  rw [fraction, start_get]
  split
  · next h =>
    have honward := onward_passWhile Decimal.isDigit (t.advance 1)
    refine ⟨_, _, rfl, (onward_advance h).trans honward, fun _ => ?_⟩
    exact Nat.lt_of_lt_of_le (Nat.lt_succ_self _) honward.forward
  · exact ⟨_, _, rfl, .refl t, nofun⟩

/-- Whether there are digits or not, they are passed. -/
theorem mantissa_start (t : Tape) :
    ∃ found s, mantissa.start t = (.ok found, s) ∧ t.Onward s ∧ (found = true → t.offset < s.offset) := by
  obtain ⟨s, hsign, hs⟩ := sign_start t
  have hdigits := onward_passWhile Decimal.isDigit s
  obtain ⟨part, u, hfraction, hu, hmoves⟩ := fraction_start (s.passWhile Decimal.isDigit)
  have hrun : mantissa.start t =
      (.ok (decide (s.offset < (s.passWhile Decimal.isDigit).offset) || part), u) := by
    rw [mantissa, start_bind_ok hsign, start_bind_ok (digits_start s), start_bind_ok hfraction]
    rfl
  refine ⟨_, u, hrun, (hs.trans hdigits).trans hu, fun hfound => ?_⟩
  have := hs.forward
  have := hdigits.forward
  have := hu.forward
  rcases Bool.or_eq_true_iff.1 hfound with hwhole | hpart
  · have := of_decide_eq_true hwhole
    omega
  · have := hmoves hpart
    omega

theorem exponentDigits_keeps (first : Nat) : (exponentDigits first).Keeps := by
  refine sign_keeps.bind fun _ => digits_keeps.bind fun found => ?_
  cases found
  · exact keeps_refuseAt first _
  · exact keeps_pure ()

theorem exponent_keeps (first : Nat) : (exponent first).Keeps := by
  intro t
  rw [exponent, start_get]
  split
  · next h => exact (onward_advance h).trans (exponentDigits_keeps first _)
  · next h => exact (onward_advance h).trans (exponentDigits_keeps first _)
  · exact .refl t

section

variable (library : NumberLibrary)

theorem value_keeps (first : Nat) : (value library first).Keeps := by
  intro t
  rw [value, start_get]
  split
  · exact .refl t
  · split
    · exact .refl t
    · exact .refl t

/-- **A number is read from at least one byte.**  Without digits the tape is moved
    back, but only to where the number begins. -/
theorem numeral_takes : (numeral library).Takes := by
  have hrest : ∀ first, Keeps (exponent first >>= fun _ => value library first) := fun first =>
    (exponent_keeps first).bind fun _ => value_keeps library first
  have hstart : ∀ t : Tape, (∃ s e, (numeral library).start t = (.error e, s) ∧ t.Onward s) ∨
      ∃ s, t.Onward s ∧ t.offset < s.offset ∧ (numeral library).start t =
        (exponent t.offset >>= fun _ => value library t.offset).start s := by
    intro t
    obtain ⟨found, s, hmantissa, hs, hmoves⟩ := mantissa_start t
    rw [numeral, start_get, start_bind_ok hmantissa]
    cases found
    · exact .inl ⟨{ s with offset := t.offset }, _, rfl, hs.bytes, Nat.le_refl _,
        fun ht => ⟨hs.bytes ▸ ht.inside, (hs.wellFormed ht).open_⟩⟩
    · exact .inr ⟨s, hs, hmoves rfl, rfl⟩
  constructor
  · intro t
    rcases hstart t with ⟨s, e, hrun, hs⟩ | ⟨s, hs, -, hrun⟩
    · rwa [hrun]
    · rw [hrun]
      exact hs.trans (hrest _ s)
  · intro t u x h
    rcases hstart t with ⟨s, e, hrun, -⟩ | ⟨s, -, hmoves, hrun⟩
    · rw [hrun] at h
      cases h
    · rw [hrun] at h
      exact Nat.lt_of_lt_of_le hmoves ((hrest _).ok h).forward

theorem scalar_takes : (scalar library).Takes :=
  separators_keeps.bind_takes fun _ => numeral_takes library

theorem point_takes : (point library).Takes :=
  (scalar_takes library).bind fun _ => (scalar_takes library).keeps.bind fun _ => keeps_pure _

theorem flag_keeps : flag.Keeps := by
  refine separators_keeps.bind fun _ t => ?_
  rw [start_get]
  split
  · next h => exact onward_advance h
  · next h => exact onward_advance h
  · exact keeps_refuse _ t

theorem arcShape_takes : (arcShape library).Takes :=
  (point_takes library).bind fun _ => (scalar_takes library).keeps.bind fun _ =>
    flag_keeps.bind fun _ => flag_keeps.bind fun _ => keeps_pure _

/-- Operands take at least one byte, except that a close has none. -/
theorem operands_takes {l : CommandLetter} (h : l.kind ≠ .close) : (operands library l).Takes := by
  have hpoint := point_takes library
  unfold operands
  split
  · exact hpoint.bind fun _ => keeps_pure _
  · exact hpoint.bind fun _ => keeps_pure _
  · exact (scalar_takes library).bind fun _ => keeps_pure _
  · exact (scalar_takes library).bind fun _ => keeps_pure _
  · exact hpoint.bind fun _ => hpoint.keeps.bind fun _ => hpoint.keeps.bind fun _ => keeps_pure _
  · exact hpoint.bind fun _ => hpoint.keeps.bind fun _ => keeps_pure _
  · exact hpoint.bind fun _ => hpoint.keeps.bind fun _ => keeps_pure _
  · exact hpoint.bind fun _ => keeps_pure _
  · exact (arcShape_takes library).bind fun _ => hpoint.keeps.bind fun _ => keeps_pure _
  · next hk => exact absurd hk h

theorem operands_keeps (l : CommandLetter) : (operands library l).Keeps := by
  by_cases h : l.kind = .close
  · unfold operands
    rw [h]
    exact keeps_pure _
  · exact (operands_takes library h).keeps

end

/-- A letter is written here or continued; otherwise it is refused. -/
theorem nextLetter_start (t : Tape) : (∃ e, nextLetter.start t = (.error e, t)) ∨
    ∃ l written, nextLetter.start t = (.ok (l, written), t) ∧
      if written then ∃ c, t.peek = some c else t.continued = some l := by
  have hcontinued : (∃ e, nextLetter.continuedLetter.start t = (.error e, t)) ∨
      ∃ l, nextLetter.continuedLetter.start t = (.ok (l, false), t) ∧ t.continued = some l := by
    rw [nextLetter.continuedLetter, start_get]
    split
    · next l hl => exact .inr ⟨l, rfl, hl⟩
    · exact .inl ⟨_, rfl⟩
  rw [nextLetter, start_get]
  split
  · next c hc =>
    split
    · next l _ => exact .inr ⟨l, true, rfl, c, hc⟩
    · split
      · exact .inl ⟨_, rfl⟩
      · exact hcontinued.imp_right fun ⟨l, hl⟩ => ⟨l, false, hl⟩
  · exact hcontinued.imp_right fun ⟨l, hl⟩ => ⟨l, false, hl⟩

/-- A letter which is accepted is passed or continued. -/
theorem letter_start (t : Tape) : (∃ e, letter.start t = (.error e, t)) ∨
    ∃ l s, letter.start t = (.ok l, s) ∧ t.Onward s ∧ (t.offset < s.offset ∨ t.continued = some l) := by
  rcases nextLetter_start t with ⟨e, hnext⟩ | ⟨l, written, hnext, hwritten⟩
  · exact .inl ⟨e, start_bind_error hnext⟩
  · rw [letter, start_bind_ok hnext, start_get]
    simp only
    split
    · exact .inl ⟨_, rfl⟩
    · right
      have hopen : ∀ k, l.continued? = some k → k.kind ≠ .close := Reader.wellFormed_afterCommand l []
      cases written with
      | true =>
        obtain ⟨c, hc⟩ := hwritten
        exact ⟨l, _, rfl, ⟨rfl, Nat.le_add_right _ _, fun _ => ⟨peek_some hc, hopen⟩⟩,
          .inl (Nat.lt_succ_self _)⟩
      | false =>
        exact ⟨l, _, rfl, ⟨rfl, Nat.le_refl _, fun ht => ⟨ht.inside, hopen⟩⟩, .inr hwritten⟩

section

variable (library : NumberLibrary)

/-- A group takes at least one byte: a letter which is not written has operands. -/
theorem group_moves {t s : Tape} {c : Command} (ht : t.WellFormed)
    (h : (group library).start t = (.ok c, s)) : t.offset < s.offset := by
  obtain ⟨l, u, hl, hc⟩ := bind_start_ok h
  have hc' := ((operands_keeps library l).ok hc).forward
  rcases letter_start t with ⟨e, hrun⟩ | ⟨k, v, hrun, honward, hmoves⟩
  · rw [hrun] at hl
    cases hl
  · rw [hrun] at hl
    cases hl
    rcases hmoves with hmoves | hcontinued
    · exact Nat.lt_of_lt_of_le hmoves hc'
    · have hkind := ht.open_ l hcontinued
      exact Nat.lt_of_le_of_lt honward.forward ((operands_takes library hkind).moves hc)

theorem group_keeps : (group library).Keeps := by
  have hletter : letter.Keeps := by
    intro t
    rcases letter_start t with ⟨e, hrun⟩ | ⟨l, s, hrun, honward, -⟩
    · rw [hrun]
      exact .refl t
    · rwa [hrun]
  exact hletter.bind fun l => operands_keeps library l

theorem command_keeps : (command library).Keeps := by
  refine separators_keeps.bind fun _ t => ?_
  rw [start_get]
  split
  · exact .refl t
  · exact (group_keeps library).bind (fun _ => keeps_pure _) t

/-- **A command which is read moves the tape.** -/
theorem command_some {t s : Tape} {c : Command} (ht : t.WellFormed)
    (h : (command library).start t = (.ok (some c), s)) : t.offset < s.offset := by
  obtain ⟨_, u, hsep, h⟩ := bind_start_ok h
  have honward := separators_keeps.ok hsep
  rw [start_get] at h
  split at h
  · cases h
  · obtain ⟨c', v, hgroup, hpure⟩ := bind_start_ok h
    cases hpure
    exact Nat.lt_of_le_of_lt honward.forward (group_moves library (honward.wellFormed ht) hgroup)

/-- Without a command nothing is left. -/
theorem command_none {t s : Tape} (h : (command library).start t = (.ok none, s)) : s.peek = none := by
  obtain ⟨_, u, hsep, h⟩ := bind_start_ok h
  rw [start_get] at h
  split at h
  · next hpeek =>
    cases h
    exact Option.isNone_iff_eq_none.1 hpeek
  · obtain ⟨c', v, hgroup, hpure⟩ := bind_start_ok h
    cases hpure

/-- At the end of a text there is no command, and the tape stays there. -/
theorem command_end {t : Tape} (h : t.peek = none) : (command library).start t = (.ok none, t) := by
  have hsep : separators.start t = (.ok (), t) := by
    show (Except.ok (), t.passWhile isSeparator) = _
    rw [passWhile_none h]
  rw [command, start_bind_ok hsep, start_get, h]
  rfl

end

end Step

/-! ## §5. One command after the other. -/

namespace Tape

section

variable (library : NumberLibrary)

/-- The next command or report, and the tape after it.  At the end and after a report
    there is none. -/
def next (t : Tape) : Option (Except Report Command) × Tape :=
  if t.failed then (none, t)
  else
    match (Step.command library).start t with
    | (.ok none, s) => (none, { s with failed := false })
    | (.ok (some c), s) => (some (.ok c), { s with failed := false })
    | (.error e, s) => (some (.error e), { s with failed := true })

theorem next_onward {t s : Tape} {x : Option (Except Report Command)}
    (h : t.next library = (x, s)) : t.Onward s := by
  unfold next at h
  split at h
  · cases h
    exact .refl t
  · split at h
    all_goals
      next hrun =>
        cases h
        have honward := (Step.command_keeps library).ok hrun
        exact ⟨honward.bytes, honward.forward, fun ht =>
          ⟨(honward.wellFormed ht).inside, (honward.wellFormed ht).open_⟩⟩

/-- A command which is given moves the tape. -/
theorem next_some {t s : Tape} {c : Command} (ht : t.WellFormed)
    (h : t.next library = (some (.ok c), s)) : t.offset < s.offset := by
  unfold next at h
  split at h
  · cases h
  · split at h
    · cases h
    · next hrun =>
      cases h
      have hmoves := Step.command_some library ht hrun
      exact hmoves
    · cases h

/-- All commands of a well formed tape, or the first report. -/
def collect (t : Tape) (ht : t.WellFormed) : Except Report (List Command) :=
  match _ : t.next library with
  | (none, _) => .ok []
  | (some (.error e), _) => .error e
  | (some (.ok c), s) => do
    let cs ← collect s ((next_onward library ‹t.next library = _›).wellFormed ht)
    return c :: cs
termination_by t.bytes.length - t.offset
decreasing_by
  have honward := next_onward library ‹_›
  have hmoves := next_some library ht ‹_›
  have hinside := (honward.wellFormed ht).inside
  rw [honward.bytes] at hinside ⊢
  omega

end

end Tape

end Path

end VectorIcon

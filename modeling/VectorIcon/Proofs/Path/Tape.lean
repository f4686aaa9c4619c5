/-
  VectorIcon.Proofs.Path.Tape
  ────────────────────────────────
  **THE TAPE READS WHAT THE GRAMMAR'S READINGS READ.**

  A tape whose bytes from the offset on are those of a text stands for that text
  (`Tape.At`).  A step follows a reading if on such a tape it gives what the
  reading gives and passes the bytes of what the reading takes, and if it reports
  the faults of the reading with their places (`Step.Follows`).  Sequences of steps
  follow sequences of readings, so that what is left to show are the tokens:

      characters  — a byte of a class of ASCII characters is such a character
      numbers     — what is passed between the ends of a number is a numeral, of
                    which a lawful library gives the value

  One command after the other, the tape answers what the reader of its text reads
  (`Tape.answers_readAll`), and it reads all path data as `Path.parse` does
  (`Tape.collect_text`).
-/
import VectorIcon.Path.Tape
import VectorIcon.Proofs.Number.Library
import VectorIcon.Proofs.Path.Fault

namespace VectorIcon

namespace Path

/-! ## §1. Tapes which stand for a text. -/

/-- The characters of a class have one byte. -/
def IsAscii (p : Char → Bool) : Prop := ∀ c, p c = true → c.toNat < 128

theorem isSeparator_ascii : IsAscii isSeparator := by
  intro c h
  have := isSeparator_bounds h
  omega

theorem isDigit_ascii : IsAscii Decimal.isDigit := by
  intro c h
  have := isDigit_bounds h
  omega

namespace Tape

/-- The bytes from an offset on are those of a text. -/
def Holds (t : Tape) (offset : Nat) (cs : List Char) : Prop :=
  ∃ before, t.bytes = before ++ Text.bytes cs ∧ offset = before.length

/-- What the tape still has to read is a text. -/
def At (t : Tape) (cs : List Char) : Prop := t.Holds t.offset cs

/-- The tape after the bytes of a text. -/
def past (t : Tape) (taken : List Char) : Tape := t.advance (Text.byteLength taken)

theorem at_ofText (d : String) : (ofText d).At d.toList := ⟨[], rfl, rfl⟩

theorem past_nil (t : Tape) : t.past [] = t := rfl

theorem past_past (t : Tape) (u v : List Char) : (t.past u).past v = t.past (u ++ v) := by
  unfold past advance
  rw [Text.byteLength_append, ← Nat.add_assoc]

section

variable {t : Tape} {cs u r : List Char} {c : Char} {p : Char → Bool}

theorem At.past (h : t.At (u ++ r)) : (t.past u).At r := by
  obtain ⟨before, hbytes, hoffset⟩ := h
  refine ⟨before ++ Text.bytes u, ?_, ?_⟩
  · show t.bytes = _
    rw [hbytes, Text.bytes, List.flatMap_append, List.append_assoc]
    rfl
  · show t.offset + Text.byteLength u = _
    rw [List.length_append, Text.length_bytes, hoffset]

/-- Between two offsets there are the bytes of what lies between the texts there. -/
theorem Holds.slice {first : Nat} (h : t.Holds first (u ++ r)) :
    (t.bytes.drop first).take (Text.byteLength u) = Text.bytes u := by
  obtain ⟨before, hbytes, rfl⟩ := h
  have hsplit : Text.bytes (u ++ r) = Text.bytes u ++ Text.bytes r := List.flatMap_append
  rw [hbytes, List.drop_left, hsplit, ← Text.length_bytes, List.take_left]

theorem At.peek_nil (h : t.At []) : t.peek = none := by
  obtain ⟨before, hbytes, hoffset⟩ := h
  unfold peek
  rw [hbytes, hoffset, List.getElem?_append_right (Nat.le_refl _), Nat.sub_self]
  rfl

/-- The next byte is the first one of the next character. -/
theorem At.peek_cons (h : t.At (c :: r)) :
    (c.toNat < 128 ∧ t.peek = some c ∧ t.past [c] = t.advance 1) ∨
      (128 ≤ c.toNat ∧ ∃ x, t.peek = some x ∧ 128 ≤ x.toNat) := by
  obtain ⟨before, hbytes, hoffset⟩ := h
  have hpeek : ∀ b bs, String.utf8EncodeChar c = b :: bs → t.peek = some (Char.ofUInt8 b) := by
    intro b bs hencode
    unfold peek
    rw [hbytes, hoffset, List.getElem?_append_right (Nat.le_refl _), Nat.sub_self, Text.bytes,
      List.flatMap_cons, hencode]
    rfl
  by_cases hc : c.toNat < 128
  · have hencode := Text.encodeChar_ascii hc
    have hsize : Text.byteLength [c] = 1 := by
      rw [← Text.length_bytes, Text.bytes, List.flatMap_singleton, hencode]
      rfl
    refine .inl ⟨hc, ?_, ?_⟩
    · rw [hpeek _ _ hencode, Text.ofUInt8_ascii hc]
    · unfold Tape.past
      rw [hsize]
  · have hc : 128 ≤ c.toNat := Nat.le_of_not_lt hc
    obtain ⟨b, bs, hencode, hb⟩ := Text.encodeChar_high hc
    exact .inr ⟨hc, _, hpeek b bs hencode, hb⟩

/-- **The bytes of a class are passed as its characters are.** -/
theorem At.passWhile (hp : IsAscii p) (h : t.At cs) : t.passWhile p = t.past (cs.takeWhile p) := by
  induction cs generalizing t with
  | nil => exact passWhile_none h.peek_nil
  | cons c r ih =>
    rcases h.peek_cons with ⟨hc, hpeek, hpast⟩ | ⟨hc, x, hpeek, hx⟩
    · rw [passWhile_some hpeek, ← hpast]
      by_cases hpc : p c = true
      · rw [if_pos hpc, ih (At.past (u := [c]) h), List.takeWhile_cons_of_pos hpc, past_past]
        rfl
      · rw [if_neg hpc, List.takeWhile_cons_of_neg hpc, past_nil]
    · have hout : ∀ y : Char, 128 ≤ y.toNat → ¬p y = true := fun y hy hpy => by
        have := hp y hpy
        omega
      rw [passWhile_some hpeek, if_neg (hout x hx), List.takeWhile_cons_of_neg (hout c hc), past_nil]

/-- There is a next byte exactly if there is a next character. -/
theorem At.peek_isNone (h : t.At cs) : t.peek.isNone = cs.isEmpty := by
  cases cs with
  | nil => rw [h.peek_nil]; rfl
  | cons c r =>
    rcases h.peek_cons with ⟨-, hpeek, -⟩ | ⟨-, x, hpeek, -⟩
    · rw [hpeek]; rfl
    · rw [hpeek]; rfl

/-- A character of one byte is the next one of the tape exactly if it is that of the
    text. -/
theorem At.peek_eq_iff (h : t.At cs) (hc : c.toNat < 128) : t.peek = some c ↔ cs.head? = some c := by
  cases cs with
  | nil => simp [h.peek_nil]
  | cons d r =>
    rcases h.peek_cons with ⟨-, hpeek, -⟩ | ⟨hd, x, hpeek, hx⟩
    · rw [hpeek, List.head?_cons]
    · rw [hpeek, List.head?_cons, Option.some_inj, Option.some_inj]
      constructor
      · rintro rfl
        omega
      · rintro rfl
        omega

end

/-! ## §2. Reports. -/

/-- What a tape reports of a fault. -/
def report (t : Tape) (f : Fault) : Report :=
  ⟨f.cause.message, t.bytes.length - Text.byteLength f.rest,
    String.ofList (f.rest.take fragmentLength)⟩

/-- **The report of an offset shows the text there.** -/
theorem Holds.report {t : Tape} {first : Nat} {rest : List Char} (h : t.Holds first rest)
    (cause : FaultCause) : t.reportAt first cause.message = t.report ⟨cause, rest⟩ := by
  obtain ⟨before, hbytes, rfl⟩ := h
  have hlength : t.bytes.length = before.length + Text.byteLength rest := by
    rw [hbytes, List.length_append, Text.length_bytes]
  have hoffset : t.bytes.length - Text.byteLength rest = before.length := by omega
  have hmin : min before.length t.bytes.length = before.length := Nat.min_eq_left (by omega)
  have hdrop : t.bytes.drop before.length = Text.bytes rest := by rw [hbytes, List.drop_left]
  unfold reportAt Tape.report
  simp only [hmin, hdrop, hoffset, Text.Utf8.lossy_bytes]

end Tape

namespace Step

open Tape (past_nil past_past)

/-! ## §3. Steps which follow readings. -/

/-- The step gives what the reading gives and passes what it takes; a fault of the
    reading is reported. -/
structure Follows {α : Type} (p : Step α) (q : Reading α) : Prop where
  ok : ∀ {t cs a r}, Tape.At t cs → q cs = .ok (a, r) →
    ∃ taken, cs = taken ++ r ∧ p.start t = (.ok a, t.past taken)
  error : ∀ {t cs f}, Tape.At t cs → q cs = .error f → ∃ s, p.start t = (.error (t.report f), s)

namespace Follows

variable {α β : Type} {p : Step α} {q : Reading α} {f : α → Step β} {g : α → Reading β}

theorem pure (a : α) : Follows (Pure.pure a) (Pure.pure a) where
  ok {t cs b r} _ h := by
    obtain ⟨rfl, rfl⟩ := Scan.pure_ok.1 h
    exact ⟨[], rfl, rfl⟩
  error _ h := by cases h

theorem bind (hp : Follows p q) (hf : ∀ a, Follows (f a) (g a)) : Follows (p >>= f) (q >>= g) where
  ok {t cs b r} ht h := by
    obtain ⟨a, v, ha, hb⟩ := Scan.bind_ok.1 h
    obtain ⟨taken, rfl, hstart⟩ := hp.ok ht ha
    obtain ⟨taken', rfl, hrest⟩ := (hf a).ok ht.past hb
    refine ⟨taken ++ taken', (List.append_assoc _ _ _).symm, ?_⟩
    rw [start_bind_ok hstart, hrest, past_past]
  error {t cs e} ht h := by
    rcases Scan.bind_error.1 h with h | ⟨a, v, ha, hb⟩
    · obtain ⟨s, hs⟩ := hp.error ht h
      exact ⟨s, start_bind_error hs⟩
    · obtain ⟨taken, rfl, hstart⟩ := hp.ok ht ha
      obtain ⟨s, hs⟩ := (hf a).error ht.past hb
      exact ⟨s, (start_bind_ok hstart).trans hs⟩

end Follows

/-! ## §4. Numbers. -/

section

variable {t : Tape} {cs : List Char}

/-- Separators are passed. -/
theorem separators_reads (h : t.At cs) : ∃ gap, cs = gap ++ skipSeparators cs ∧
    separators.start t = (.ok (), t.past gap) ∧ (t.past gap).At (skipSeparators cs) := by
  have hcs : cs = cs.takeWhile isSeparator ++ skipSeparators cs :=
    List.takeWhile_append_dropWhile.symm
  refine ⟨cs.takeWhile isSeparator, hcs, ?_, Tape.At.past (hcs ▸ h)⟩
  show (Except.ok (), t.passWhile isSeparator) = _
  rw [h.passWhile isSeparator_ascii]

/-- A sign is passed. -/
theorem sign_reads (h : t.At cs) :
    ∃ taken, cs = taken ++ (Decimal.splitSign cs).2 ∧ sign.start t = (.ok (), t.past taken) := by
  rw [sign, start_get]
  split
  · next hpeek =>
    obtain ⟨r, rfl⟩ := List.head?_eq_some_iff.1 ((h.peek_eq_iff (by decide)).1 hpeek)
    exact ⟨['-'], rfl, rfl⟩
  · next hpeek =>
    obtain ⟨r, rfl⟩ := List.head?_eq_some_iff.1 ((h.peek_eq_iff (by decide)).1 hpeek)
    exact ⟨['+'], rfl, rfl⟩
  · next hminus hplus =>
    have hnone : Decimal.splitSign cs = (false, cs) := by
      rw [Decimal.splitSign]
      · rintro r rfl
        exact hminus ((h.peek_eq_iff (by decide)).2 rfl)
      · rintro r rfl
        exact hplus ((h.peek_eq_iff (by decide)).2 rfl)
    rw [hnone]
    exact ⟨[], rfl, rfl⟩

/-- Digits are passed and found. -/
theorem digits_reads (h : t.At cs) : ∃ taken, cs = taken ++ (Decimal.splitDigits cs).2 ∧
    digits.start t = (.ok (!(Decimal.splitDigits cs).1.isEmpty), t.past taken) := by
  refine ⟨(Decimal.splitDigits cs).1, Decimal.splitDigits_eq cs, ?_⟩
  have hpass : t.passWhile Decimal.isDigit = t.past (Decimal.splitDigits cs).1 :=
    h.passWhile isDigit_ascii
  rw [digits_start, hpass]
  cases (Decimal.splitDigits cs).1 with
  | nil => simp [past_nil]
  | cons c ds =>
    have hpos := c.utf8Size_pos
    have hmoves : t.offset < (t.past (c :: ds)).offset := by
      show t.offset < t.offset + (c.utf8Size + Text.byteLength ds)
      omega
    rw [decide_eq_true hmoves]
    rfl

/-- A point and digits are passed, and the digits are found. -/
theorem fraction_reads (h : t.At cs) : ∃ taken, cs = taken ++ (Decimal.splitFraction cs).2 ∧
    fraction.start t = (.ok (!(Decimal.splitFraction cs).1.isEmpty), t.past taken) := by
  rw [fraction, start_get]
  split
  · next hpeek =>
    obtain ⟨r, rfl⟩ := List.head?_eq_some_iff.1 ((h.peek_eq_iff (by decide)).1 hpeek)
    obtain ⟨taken, hr, hdigits⟩ := digits_reads (Tape.At.past (u := ['.']) h)
    rw [past_past] at hdigits
    exact ⟨'.' :: taken, congrArg ('.' :: ·) hr, hdigits⟩
  · next hpoint =>
    have hnone : Decimal.splitFraction cs = ([], cs) := by
      rw [Decimal.splitFraction]
      rintro r rfl
      exact hpoint ((h.peek_eq_iff (by decide)).2 rfl)
    rw [hnone]
    exact ⟨[], rfl, rfl⟩

/-- What stands before an exponent is passed, and its digits are found. -/
theorem mantissa_reads (h : t.At cs) :
    ∃ taken, cs = taken ++ Decimal.afterMantissa (Decimal.splitSign cs).2 ∧
      mantissa.start t = (.ok (Decimal.hasDigits cs), t.past taken) := by
  obtain ⟨u, hu, hsign⟩ := sign_reads h
  have hat : t.At (u ++ (Decimal.splitSign cs).2) := hu ▸ h
  obtain ⟨v, hv, hdigits⟩ := digits_reads hat.past
  obtain ⟨w, hw, hfraction⟩ := fraction_reads (Tape.At.past (u := v) (hv ▸ hat.past))
  refine ⟨u ++ (v ++ w), ?_, ?_⟩
  · rw [List.append_assoc, List.append_assoc, Decimal.afterMantissa, ← hw, ← hv, ← hu]
  · rw [mantissa, start_bind_ok hsign, start_bind_ok hdigits, start_bind_ok hfraction, start_pure,
      past_past, past_past, Decimal.hasDigits, Bool.not_and]

/-- Without an exponent letter nothing is passed. -/
theorem exponent_none (h : t.At cs) (first : Nat)
    (hcs : ∀ c ∈ cs.head?, ¬Decimal.IsExponentLetter c) : (exponent first).start t = (.ok (), t) := by
  rw [exponent, start_get]
  split
  · next hpeek => exact absurd (.inl rfl) (hcs _ ((h.peek_eq_iff (by decide)).1 hpeek))
  · next hpeek => exact absurd (.inr rfl) (hcs _ ((h.peek_eq_iff (by decide)).1 hpeek))
  · rfl

theorem exponent_letter {c : Char} {r : List Char} (hc : Decimal.IsExponentLetter c)
    (h : t.At (c :: r)) (first : Nat) :
    (exponent first).start t = (exponentDigits first).start (t.past [c]) := by
  have hascii : c.toNat < 128 := by rcases hc with rfl | rfl <;> decide
  rw [exponent, start_get, (h.peek_eq_iff hascii).2 rfl]
  rcases hc with rfl | rfl <;> rfl

/-- The sign and the digits of an exponent are passed; without digits it is refused. -/
theorem exponentDigits_start (h : t.At cs) (first : Nat) :
    ∃ taken, cs = taken ++ (Decimal.splitDigits (Decimal.splitSign cs).2).2 ∧
      (exponentDigits first).start t =
        (if (Decimal.splitDigits (Decimal.splitSign cs).2).1 = [] then
          .error (t.reportAt first "malformed exponent") else .ok (), t.past taken) := by
  obtain ⟨u, hu, hsign⟩ := sign_reads h
  have hat : t.At (u ++ (Decimal.splitSign cs).2) := hu ▸ h
  obtain ⟨v, hv, hdigits⟩ := digits_reads hat.past
  refine ⟨u ++ v, by rw [List.append_assoc, ← hv, ← hu], ?_⟩
  rw [exponentDigits, start_bind_ok hsign, start_bind_ok hdigits, past_past]
  cases (Decimal.splitDigits (Decimal.splitSign cs).2).1 with
  | nil => rfl
  | cons c ds => rfl

/-- **An exponent is passed**, if there is one. -/
theorem exponent_ok (h : t.At cs) (first : Nat) {k : Int} {r : List Char}
    (hsplit : Decimal.splitExponent cs = .ok (k, r)) :
    ∃ taken, cs = taken ++ r ∧ (exponent first).start t = (.ok (), t.past taken) := by
  rcases List.head_cases Decimal.IsExponentLetter cs with ⟨c, v, rfl, hc⟩ | hnone
  · obtain ⟨taken, hv, hstart⟩ := exponentDigits_start (Tape.At.past (u := [c]) h) first
    rw [Decimal.splitExponent_some hc] at hsplit
    split at hsplit
    · cases hsplit
    · next hdigits =>
      cases hsplit
      refine ⟨c :: taken, congrArg (c :: ·) hv, ?_⟩
      rw [exponent_letter hc h, hstart, if_neg hdigits, past_past]
      rfl
  · rw [Decimal.splitExponent_none hnone] at hsplit
    cases hsplit
    exact ⟨[], rfl, exponent_none h first hnone⟩

/-- An exponent without digits is refused. -/
theorem exponent_error (h : t.At cs) (first : Nat) {f : Decimal.NumeralFault}
    (hsplit : Decimal.splitExponent cs = .error f) : f = .missingExponent ∧
      ∃ s, (exponent first).start t = (.error (t.reportAt first "malformed exponent"), s) := by
  rcases List.head_cases Decimal.IsExponentLetter cs with ⟨c, v, rfl, hc⟩ | hnone
  · obtain ⟨taken, hv, hstart⟩ := exponentDigits_start (Tape.At.past (u := [c]) h) first
    rw [Decimal.splitExponent_some hc] at hsplit
    split at hsplit
    · next hdigits =>
      cases hsplit
      rw [exponent_letter hc h, hstart, if_pos hdigits]
      exact ⟨rfl, _, rfl⟩
    · cases hsplit
  · rw [Decimal.splitExponent_none hnone] at hsplit
    cases hsplit

end

section

variable {library : NumberLibrary} (hl : library.Lawful)

theorem requireDigits_true (first : Nat) (t : Tape) :
    (requireDigits first true).start t = (.ok (), t) := rfl

/-- The mantissa is passed, and it is checked for digits. -/
theorem numeral_start (library : NumberLibrary) {t : Tape} {cs : List Char} (h : t.At cs) :
    ∃ taken, cs = taken ++ Decimal.afterMantissa (Decimal.splitSign cs).2 ∧
      (numeral library).start t = (requireDigits t.offset (Decimal.hasDigits cs) >>= fun _ =>
        exponent t.offset >>= fun _ => value library t.offset).start (t.past taken) := by
  obtain ⟨taken, hcs, hmantissa⟩ := mantissa_reads h
  refine ⟨taken, hcs, ?_⟩
  rw [numeral, start_get, start_bind_ok hmantissa]

/-- Without a numeral the report names what is missing, and shows the text where one
    should begin. -/
theorem numeral_unscanned {t : Tape} {cs : List Char} {f : Decimal.NumeralFault} (h : t.At cs)
    (hscan : Decimal.scan cs = .error f) : ∃ s, (numeral library).start t =
      (.error (t.report ⟨if f = .missingDigits then .expectedNumber else .malformedExponent, cs⟩), s) := by
  obtain ⟨m, hm, hstart⟩ := numeral_start library h
  rcases Decimal.scan_error hscan with ⟨hnone, rfl⟩ | ⟨hsome, hexp⟩
  · have hreport := h.report .expectedNumber
    refine ⟨{ t.past m with offset := t.offset }, ?_⟩
    rw [hstart, hnone, if_pos rfl, ← hreport]
    rfl
  · obtain ⟨rfl, s, hexponent⟩ := exponent_error (Tape.At.past (u := m) (hm ▸ h)) t.offset hexp
    have hreport := h.report .malformedExponent
    refine ⟨s, ?_⟩
    rw [hstart, hsome, start_bind_ok (requireDigits_true _ _), start_bind_error hexponent,
      if_neg (by decide), ← hreport]
    rfl

include hl

/-- **A numeral is passed and handed to the library.** -/
theorem numeral_scanned {t : Tape} {cs r : List Char} {d : Decimal} (h : t.At cs)
    (hscan : Decimal.scan cs = .ok (d, r)) : ∃ taken, cs = taken ++ r ∧
      (numeral library).start t = (if d.toScalar.isFinite then .ok d.toScalar else
        .error (t.reportAt t.offset "number out of range"), t.past taken) := by
  obtain ⟨m, hm, hstart⟩ := numeral_start library h
  obtain ⟨-, k, hexp, -⟩ := Decimal.scan_ok.1 hscan
  obtain ⟨e, he, hexponent⟩ := exponent_ok (Tape.At.past (u := m) (hm ▸ h)) t.offset hexp
  have hcs : cs = m ++ e ++ r := by rw [List.append_assoc, ← he, ← hm]
  -- what was passed is the numeral which is scanned
  have hnumeral : d.Numeral (m ++ e) := by
    obtain ⟨u, hu, hd, -⟩ := Decimal.scan_sound hscan
    rwa [List.append_cancel_right (hcs.symm.trans hu)]
  have htoken : ((t.past (m ++ e)).bytes.drop t.offset).take ((t.past (m ++ e)).offset - t.offset) =
      Text.bytes (m ++ e) := by
    have hslice := Tape.Holds.slice (hcs ▸ h : t.At (m ++ e ++ r))
    have hoffset : (t.past (m ++ e)).offset - t.offset = Text.byteLength (m ++ e) :=
      Nat.add_sub_cancel_left _ _
    rw [hoffset]
    exact hslice
  refine ⟨m ++ e, hcs, ?_⟩
  rw [hstart, Decimal.hasDigits_of_scan hscan, start_bind_ok (requireDigits_true _ _),
    start_bind_ok hexponent, past_past, value, start_get, htoken, hl.numeral hnumeral]
  simp only
  split <;> rfl

/-- **A number is read byte by byte** as its numeral is scanned. -/
theorem scalar_follows : Follows (scalar library) number where
  ok {t cs x r} ht h := by
    obtain ⟨d, hscan, hfinite, rfl⟩ := number_ok.1 h
    obtain ⟨gap, hcs, hsep, hat⟩ := separators_reads ht
    obtain ⟨taken, htaken, hstart⟩ := numeral_scanned hl hat hscan
    refine ⟨gap ++ taken, by rw [List.append_assoc, ← htaken, ← hcs], ?_⟩
    rw [scalar, start_bind_ok hsep, hstart, if_pos hfinite, past_past]
  error {t cs f} ht h := by
    obtain ⟨gap, -, hsep, hat⟩ := separators_reads ht
    rw [scalar, start_bind_ok hsep]
    simp only [number] at h
    split at h
    · next hscan =>
      cases h
      exact numeral_unscanned hat hscan
    · next hscan =>
      cases h
      exact numeral_unscanned hat hscan
    · next d r hscan =>
      split at h
      · cases h
      · next hinfinite =>
        cases h
        obtain ⟨taken, -, hstart⟩ := numeral_scanned hl hat hscan
        have hreport := hat.report .numberOutOfRange
        refine ⟨(t.past gap).past taken, ?_⟩
        rw [hstart, if_neg hinfinite]
        exact congrArg (Except.error ·, _) hreport

/-! ## §5. Operands. -/

theorem point_follows : Follows (point library) Path.point :=
  (scalar_follows hl).bind fun _ => (scalar_follows hl).bind fun _ => .pure _

omit hl in
theorem flag_follows : Follows flag Path.flag where
  ok {t cs b r} ht h := by
    obtain ⟨gap, hcs, hsep, hat⟩ := separators_reads ht
    rw [flag_ok.1 h] at hcs hat
    refine ⟨gap ++ [if b then '1' else '0'], by simpa using hcs, ?_⟩
    rw [flag, start_bind_ok hsep, start_get, ← past_past]
    cases b with
    | false =>
      rw [(hat.peek_eq_iff (by decide)).2 rfl]
      rfl
    | true =>
      rw [(hat.peek_eq_iff (by decide)).2 rfl]
      rfl
  error {t cs f} ht h := by
    obtain ⟨gap, -, hsep, hat⟩ := separators_reads ht
    -- neither flag comes next, for it would be read
    have hnone : ∀ b : Bool, (t.past gap).peek ≠ some (if b then '1' else '0') := by
      intro b hpeek
      obtain ⟨r, hr⟩ := List.head?_eq_some_iff.1
        ((hat.peek_eq_iff (by cases b <;> decide)).1 hpeek)
      rw [flag_ok.2 hr] at h
      cases h
    have hreport := hat.report .expectedFlag
    rw [flag, start_bind_ok hsep, start_get]
    split
    · next hpeek => exact absurd hpeek (hnone false)
    · next hpeek => exact absurd hpeek (hnone true)
    · unfold Path.flag at h
      split at h
      · cases h
      · cases h
      · cases h
        exact ⟨_, congrArg (Except.error ·, _) hreport⟩

theorem arcShape_follows : Follows (arcShape library) Path.arcShape :=
  (point_follows hl).bind fun _ => (scalar_follows hl).bind fun _ => flag_follows.bind fun _ =>
    flag_follows.bind fun _ => .pure _

theorem operands_follows (l : CommandLetter) : Follows (operands library l) (Path.operands l) := by
  have hpoint := point_follows hl
  unfold operands Path.operands
  cases l.kind with
  | move => exact hpoint.bind fun _ => .pure _
  | line => exact hpoint.bind fun _ => .pure _
  | horizontal => exact (scalar_follows hl).bind fun _ => .pure _
  | vertical => exact (scalar_follows hl).bind fun _ => .pure _
  | cubic => exact hpoint.bind fun _ => hpoint.bind fun _ => hpoint.bind fun _ => .pure _
  | smoothCubic => exact hpoint.bind fun _ => hpoint.bind fun _ => .pure _
  | quad => exact hpoint.bind fun _ => hpoint.bind fun _ => .pure _
  | smoothQuad => exact hpoint.bind fun _ => .pure _
  | arc => exact (arcShape_follows hl).bind fun _ => hpoint.bind fun _ => .pure _
  | close => exact .pure _

end

/-! ## §6. Letters. -/

/-- What comes next is told apart by its byte as by its character. -/
theorem next_kind {t : Tape} {c : Char} {u : List Char} (h : t.At (c :: u)) :
    ∃ x, t.peek = some x ∧ CommandLetter.ofChar? x = CommandLetter.ofChar? c ∧
      isAsciiLetter x = isAsciiLetter c ∧
      (∀ l, CommandLetter.ofChar? c = some l → t.past [c] = t.advance 1) := by
  rcases h.peek_cons with ⟨-, hpeek, hpast⟩ | ⟨hc, x, hpeek, hx⟩
  · exact ⟨c, hpeek, rfl, rfl, fun _ _ => hpast⟩
  · -- beyond the characters of one byte there are no letters
    have hnone : ∀ y : Char, 128 ≤ y.toNat →
        CommandLetter.ofChar? y = none ∧ isAsciiLetter y = false := by
      intro y hy
      constructor
      · refine Option.eq_none_iff_forall_ne_some.2 fun l hl => ?_
        rw [ofChar?_some hl] at hy
        obtain ⟨kind, frame⟩ := l
        cases kind <;> cases frame <;> exact absurd hy (by decide)
      · refine Bool.eq_false_iff.2 fun hletter => ?_
        simp only [isAsciiLetter, Bool.or_eq_true, Bool.and_eq_true, decide_eq_true_eq] at hletter
        have hz : y.toNat ≤ 122 := hletter.elim (fun h => h.2) fun h => Nat.le_trans h.2 (by decide)
        omega
    obtain ⟨hcofChar, hcletter⟩ := hnone c hc
    obtain ⟨hxofChar, hxletter⟩ := hnone x hx
    refine ⟨x, hpeek, hxofChar.trans hcofChar.symm, hxletter.trans hcletter.symm, fun l hl => ?_⟩
    rw [hcofChar] at hl
    cases hl

section

variable {t : Tape} {c : Char} {u : List Char} {l : CommandLetter} (hat : t.At (c :: u))

include hat

theorem nextLetter_written (hc : CommandLetter.ofChar? c = some l) :
    nextLetter.start t = (.ok (l, true), t) ∧ t.past [c] = t.advance 1 := by
  obtain ⟨x, hpeek, hx, -, hpast⟩ := next_kind hat
  refine ⟨?_, hpast l hc⟩
  rw [nextLetter, start_get, hpeek]
  simp only
  rw [hx, hc]
  rfl

theorem nextLetter_unwritten (hc : CommandLetter.ofChar? c = none) :
    nextLetter.start t = if isAsciiLetter c then
      (.error (t.reportAt t.offset FaultCause.unknownCommand.message), t)
      else nextLetter.continuedLetter.start t := by
  obtain ⟨x, hpeek, hx, hletter, -⟩ := next_kind hat
  rw [nextLetter, start_get, hpeek]
  simp only
  rw [hx, hc]
  simp only
  rw [hletter]
  split <;> rfl

end

theorem continuedLetter_some {t : Tape} {l : CommandLetter} (h : t.continued = some l) :
    nextLetter.continuedLetter.start t = (.ok (l, false), t) := by
  rw [nextLetter.continuedLetter, start_get, h]
  rfl

theorem continuedLetter_none {t : Tape} (h : t.continued = none) : nextLetter.continuedLetter.start t =
    (.error (t.reportAt t.offset FaultCause.expectedCommand.message), t) := by
  rw [nextLetter.continuedLetter, start_get, h]
  rfl

/-- A letter is accepted after a move, or as a move; then it is passed if it is written. -/
theorem letter_accepts {t : Tape} {l : CommandLetter} {written : Bool}
    (h : nextLetter.start t = (.ok (l, written), t)) (hmove : t.started = true ∨ l.kind = .move) :
    letter.start t = (.ok l, (if written then t.advance 1 else t).accept l) := by
  have hallowed : ¬(!t.started && l.kind != .move) = true := by
    rcases hmove with hmove | hmove <;> simp [hmove]
  rw [letter, start_bind_ok h, start_get]
  simp only
  rw [if_neg hallowed]
  cases written <;> rfl

theorem letter_missing {t : Tape} {l : CommandLetter} {written : Bool}
    (h : nextLetter.start t = (.ok (l, written), t)) (hmove : ¬(t.started = true ∨ l.kind = .move)) :
    letter.start t = (.error (t.reportAt t.offset FaultCause.missingMove.message), t) := by
  have hallowed : (!t.started && l.kind != .move) = true := by simpa [not_or] using hmove
  rw [letter, start_bind_ok h, start_get]
  simp only
  rw [if_pos hallowed]
  rfl

end Step

namespace Tape

/-- The tape remembers the same as a reader. -/
structure Like (t : Tape) (r : Reader) : Prop where
  continued : t.continued = r.continued
  started : t.started = r.started

end Tape

namespace Step

section

variable {library : NumberLibrary} (hl : library.Lawful) {t : Tape} {r : Reader} {cs v : List Char}
  {l : CommandLetter} {f : Fault}

/-- **A letter is read or continued** as by the reader. -/
theorem letter_ok (hat : t.At cs) (hlike : t.Like r) (h : r.letter cs = .ok (l, v)) :
    ∃ taken, cs = taken ++ v ∧ letter.start t = (.ok l, (t.past taken).accept l) := by
  obtain ⟨hmove, hletter⟩ := Reader.letter_iff.1 h
  rw [← hlike.started] at hmove
  rcases hletter with rfl | ⟨hcontinued, rfl, c, u, rfl, hnone, hplain⟩
  · obtain ⟨hnext, hpast⟩ := nextLetter_written hat (CommandLetter.ofChar?_toChar l)
    refine ⟨[l.toChar], rfl, ?_⟩
    rw [letter_accepts hnext hmove, if_pos rfl, hpast]
  · have hnext := nextLetter_unwritten hat hnone
    rw [if_neg hplain, continuedLetter_some (hlike.continued.trans hcontinued)] at hnext
    exact ⟨[], rfl, letter_accepts hnext hmove⟩

/-- A letter which is missing or not accepted is reported. -/
theorem letter_error (hat : t.At cs) (hlike : t.Like r) (hne : cs ≠ []) (h : r.letter cs = .error f) :
    ∃ s, letter.start t = (.error (t.report f), s) := by
  obtain ⟨c, u, rfl⟩ := List.exists_cons_of_ne_nil hne
  simp only [Reader.letter] at h
  split at h
  · next l hc =>
    split at h
    · cases h
    · next hmove =>
      cases h
      rw [← hlike.started] at hmove
      have hmove : ¬(t.started = true ∨ l.kind = .move) := by simpa using hmove
      exact ⟨t, (letter_missing (nextLetter_written hat hc).1 hmove).trans
        (congrArg (Except.error ·, t) (hat.report .missingMove))⟩
  · next hc =>
    have hnext := nextLetter_unwritten hat hc
    split at h
    · next hletter =>
      cases h
      rw [if_pos hletter] at hnext
      exact ⟨t, (start_bind_error hnext).trans (congrArg (Except.error ·, t) (hat.report .unknownCommand))⟩
    · next hletter =>
      rw [if_neg hletter] at hnext
      split at h
      · next l hcontinued =>
        split at h
        · cases h
        · next hmove =>
          cases h
          rw [← hlike.started] at hmove
          have hmove : ¬(t.started = true ∨ l.kind = .move) := by simpa using hmove
          rw [continuedLetter_some (hlike.continued.trans hcontinued)] at hnext
          exact ⟨t, (letter_missing hnext hmove).trans
            (congrArg (Except.error ·, t) (hat.report .missingMove))⟩
      · next hcontinued =>
        cases h
        rw [continuedLetter_none (hlike.continued.trans hcontinued)] at hnext
        exact ⟨t, (start_bind_error hnext).trans
          (congrArg (Except.error ·, t) (hat.report .expectedCommand))⟩

/-! ## §7. Commands. -/

/-- After separators there is the end or a group. -/
theorem command_start (library : NumberLibrary) (hat : t.At cs) :
    ∃ gap, (t.past gap).At (skipSeparators cs) ∧ (command library).start t =
      if (skipSeparators cs).isEmpty then (.ok none, t.past gap)
      else (do return some (← group library) : Step _).start (t.past gap) := by
  obtain ⟨gap, -, hsep, hgap⟩ := separators_reads hat
  refine ⟨gap, hgap, ?_⟩
  rw [command, start_bind_ok hsep, start_get, hgap.peek_isNone]
  split <;> rfl

theorem command_reads_none (library : NumberLibrary) (hat : t.At r.rest) (h : r.command = .ok none) :
    ∃ s, (command library).start t = (.ok none, s) := by
  obtain ⟨gap, -, hstart⟩ := command_start library hat
  rw [Reader.command_none.1 h] at hstart
  exact ⟨_, hstart⟩

include hl

/-- **A command is read** as by the reader, which remembers the same afterwards. -/
theorem command_reads_some (hat : t.At r.rest) (hlike : t.Like r) {c : Command} {r' : Reader}
    (h : r.command = .ok (some (c, r'))) : ∃ s, (command library).start t = (.ok (some c), s) ∧
      s.bytes = t.bytes ∧ s.At r'.rest ∧ s.Like r' := by
  obtain ⟨l, u, v, hletter, hoperands, rfl⟩ := Reader.command_some_iff.1 h
  obtain ⟨gap, hgap, hstart⟩ := command_start library hat
  have hne : ¬(skipSeparators r.rest).isEmpty = true := by
    intro hempty
    rw [List.isEmpty_iff.1 hempty] at hletter
    cases hletter
  have hgapLike : (t.past gap).Like r := ⟨hlike.continued, hlike.started⟩
  obtain ⟨taken, hu, hl'⟩ := letter_ok hgap hgapLike hletter
  have hafter : (((t.past gap).past taken).accept l).At u := Tape.At.past (t := t.past gap) (hu ▸ hgap)
  obtain ⟨taken', rfl, hc⟩ := (operands_follows hl l).ok hafter hoperands
  have hgroup : (group library).start (t.past gap) = _ := (start_bind_ok hl').trans hc
  refine ⟨(((t.past gap).past taken).accept l).past taken', ?_, rfl, hafter.past, rfl, rfl⟩
  rw [hstart, if_neg hne, start_bind_ok hgroup, start_pure]

/-- The fault of a command is reported. -/
theorem command_reads_error (hat : t.At r.rest) (hlike : t.Like r) (h : r.command = .error f) :
    ∃ s, (command library).start t = (.error (t.report f), s) := by
  obtain ⟨hne, hfault⟩ := Reader.command_error_iff.1 h
  obtain ⟨gap, hgap, hstart⟩ := command_start library hat
  have hgapLike : (t.past gap).Like r := ⟨hlike.continued, hlike.started⟩
  rw [if_neg (by simpa using hne)] at hstart
  rcases hfault with hletter | ⟨l, u, hletter, hoperands⟩
  · obtain ⟨s, hs⟩ := letter_error hgap hgapLike hne hletter
    exact ⟨s, hstart.trans (start_bind_error (start_bind_error hs))⟩
  · obtain ⟨taken, hu, hl'⟩ := letter_ok hgap hgapLike hletter
    have hafter : (((t.past gap).past taken).accept l).At u :=
      Tape.At.past (t := t.past gap) (hu ▸ hgap)
    obtain ⟨s, hs⟩ := (operands_follows hl l).error hafter hoperands
    exact ⟨s, hstart.trans (start_bind_error ((start_bind_ok hl').trans hs))⟩

end

end Step

/-! ## §8. Whole texts. -/

namespace Tape

/-- What a tape answers one time after the other: commands, and then a report or that
    there are no more. -/
inductive Answers (library : NumberLibrary) : Tape → List Command → Option Report → Prop where
  | ended {t s : Tape} : t.next library = (none, s) → Answers library t [] none
  | refused {t s : Tape} {e : Report} : t.next library = (some (.error e), s) →
      Answers library t [] (some e)
  | given {t s : Tape} {c : Command} {cs : List Command} {refusal : Option Report} :
      t.next library = (some (.ok c), s) → Answers library s cs refusal →
      Answers library t (c :: cs) refusal

section

variable {library : NumberLibrary} {t s : Tape} {cs : List Command} {refusal : Option Report}

/-- **The commands are collected in order**, unless there is a report. -/
theorem Answers.collect (h : Answers library t cs refusal) (ht : t.WellFormed) :
    t.collect library ht = refusal.elim (.ok cs) .error := by
  induction h with
  | ended hnext =>
    rw [Tape.collect]
    split
    · rfl
    · next heq => cases hnext.symm.trans heq
    · next heq => cases hnext.symm.trans heq
  | refused hnext =>
    rw [Tape.collect]
    split
    · next heq => cases hnext.symm.trans heq
    · next heq =>
      cases hnext.symm.trans heq
      rfl
    · next heq => cases hnext.symm.trans heq
  | @given t s c cs refusal hnext _ ih =>
    rw [Tape.collect]
    split
    · next heq => cases hnext.symm.trans heq
    · next heq => cases hnext.symm.trans heq
    · next heq =>
      cases hnext.symm.trans heq
      rw [ih]
      cases refusal <;> rfl

theorem report_congr (h : s.bytes = t.bytes) : s.report = t.report := by
  funext f
  unfold report
  rw [h]

/-- **A tape answers what the reader of its text reads.** -/
theorem answers_readAll (hl : library.Lawful) (r : Reader) (hr : r.WellFormed) :
    ∀ t : Tape, t.At r.rest → t.Like r → t.failed = false →
      Answers library t (r.readAll hr).commands ((r.readAll hr).fault.map t.report) := by
  -- the recursion of the reader: a fault, the end, and one more command
  fun_induction Reader.readAll r hr with
  | case1 r hr f hc =>
    intro t hat hlike hfailed
    obtain ⟨s, hs⟩ := Step.command_reads_error hl hat hlike hc
    refine .refused (s := { s with failed := true }) ?_
    rw [next, hfailed, if_neg Bool.false_ne_true, hs]
  | case2 r hr hc =>
    intro t hat hlike hfailed
    obtain ⟨s, hs⟩ := Step.command_reads_none library hat hc
    refine .ended (s := { s with failed := false }) ?_
    rw [next, hfailed, if_neg Bool.false_ne_true, hs]
  | case3 r hr c r' hc p ih =>
    intro t hat hlike hfailed
    obtain ⟨s, hs, hbytes, hat', hlike'⟩ := Step.command_reads_some hl hat hlike hc
    have hnext : t.next library = (some (.ok c), { s with failed := false }) := by
      rw [next, hfailed, if_neg Bool.false_ne_true, hs]
    have hrest := ih { s with failed := false } hat' ⟨hlike'.continued, hlike'.started⟩ rfl
    have hreport : ({ s with failed := false } : Tape).report = t.report := report_congr hbytes
    rw [hreport] at hrest
    exact .given hnext hrest

end

/-- From a text the commands which it is parsed to are answered, and its fault. -/
theorem answers_text {library : NumberLibrary} (hl : library.Lawful) (d : String) :
    Answers library (ofText d) (parseChars d.toList).commands
      ((parseChars d.toList).fault.map fun f => (f.toError d.toList).report) := by
  have hreport : (ofText d).report = fun f : Fault => (f.toError d.toList).report := by
    funext f
    show Report.mk _ ((Text.bytes d.toList).length - _) _ = _
    rw [Text.length_bytes]
    rfl
  rw [← hreport]
  exact answers_readAll hl _ (Reader.wellFormed_ofChars d.toList) _ (at_ofText d) ⟨rfl, rfl⟩ rfl

/-- **A text is read from a tape as it is parsed.** -/
theorem collect_text {library : NumberLibrary} (hl : library.Lawful) (d : String) :
    (ofText d).collect library (wellFormed_ofText d) = (parse d).mapError Error.report := by
  rw [(answers_text hl d).collect]
  cases hfault : (parseChars d.toList).fault with
  | none =>
    rw [parse_ok_iff.2 ⟨hfault, rfl⟩]
    rfl
  | some f =>
    rw [parse_error_iff.2 ⟨f, hfault, rfl⟩]
    rfl

end Tape

end Path

end VectorIcon

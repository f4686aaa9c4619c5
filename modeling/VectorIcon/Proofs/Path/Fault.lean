/-
  VectorIcon.Proofs.Path.Fault
  ────────────────────────────────
  **THE PLACE OF AN ERROR IN PATH DATA.**

  The error of a refused text points at a token.  The text before it is whole:
  it ends between two characters, the same commands are read from it alone, and
  nothing is wrong with it except that it may end too early.

  A scan takes the longest token, so that what it takes depends on what follows.
  It does not depend on how far the text goes on, though:

      Scan.Trims p      — `p` takes the same from a text which is cut anywhere in
                          what `p` leaves
      Path.Places p     — moreover, the text before a fault of `p` ends too early
                          and has no other fault

  A numeral is trimmed because its sign, its digits, its fraction and its exponent
  are (`Decimal.scan_trims`), and both properties go through sequences.  One
  command is trimmed (`Reader.command_trims`) and has its fault in its place
  (`Reader.command_blames`); a row of commands follows by induction.
-/
import VectorIcon.Proofs.Path.Grammar

namespace VectorIcon

/-! ## §1. Cutting what is left. -/

namespace Scan

variable {σ ε α β : Type}

/-- The scan takes the same items if the text ends within what it leaves. -/
def Trims (p : Scan σ ε α) : Prop :=
  ∀ s a v t, p s = .ok (a, v ++ t) → ∃ u, s = u ++ (v ++ t) ∧ p (u ++ v) = .ok (a, v)

theorem trims_pure (a : α) : Trims (pure a : Scan σ ε α) := by
  intro s b v t h
  obtain ⟨rfl, rfl⟩ := pure_ok.1 h
  exact ⟨[], rfl, rfl⟩

theorem trims_error (e : ε) : Trims (fun _ => .error e : Scan σ ε α) := by
  intro s b v t h
  cases h

/-- What the second scan leaves is left by the first one, after what the second
    one takes. -/
theorem Trims.bind {p : Scan σ ε α} {f : α → Scan σ ε β} (hp : Trims p) (hf : ∀ a, Trims (f a)) :
    Trims (p >>= f) := by
  intro s b v t h
  obtain ⟨a, w, ha, hb⟩ := bind_ok.1 h
  obtain ⟨u', rfl, hb'⟩ := hf a w b v t hb
  rw [← List.append_assoc] at ha
  obtain ⟨u, rfl, ha'⟩ := hp s a (u' ++ v) t ha
  refine ⟨u ++ u', by simp only [List.append_assoc], ?_⟩
  rw [List.append_assoc]
  exact bind_ok.2 ⟨a, u' ++ v, ha', hb'⟩

end Scan

/-! ## §2. Numerals. -/

namespace Decimal

open Scan (Trims)

/-- A part of a numeral is split off without a fault. -/
def part {α : Type} (f : List Char → α × List Char) : Scan Char NumeralFault α := fun s => .ok (f s)

theorem splitDigits_trims : Trims (part splitDigits) := by
  intro s a v t h
  obtain ⟨rfl, hrest⟩ := Prod.mk.inj (Except.ok.inj h)
  obtain ⟨hs, htake, hdrop⟩ := List.span_append hrest
  refine ⟨s.takeWhile isDigit, hs, ?_⟩
  show Except.ok (List.takeWhile _ _, List.dropWhile _ _) = _
  rw [htake, hdrop]

theorem splitSign_trims : Trims (part splitSign) := by
  intro s a v t h
  have h := Except.ok.inj h
  unfold splitSign at h
  split at h
  · obtain ⟨rfl, rfl⟩ := Prod.mk.inj h
    exact ⟨['-'], rfl, rfl⟩
  · obtain ⟨rfl, rfl⟩ := Prod.mk.inj h
    exact ⟨['+'], rfl, rfl⟩
  · next hminus hplus =>
    obtain ⟨rfl, rfl⟩ := Prod.mk.inj h
    refine ⟨[], rfl, ?_⟩
    cases v with
    | nil => rfl
    | cons c v =>
      show Except.ok (splitSign (c :: v)) = _
      unfold splitSign
      split
      · next heq => exact absurd (congrArg (· ++ t) heq) (hminus _)
      · next heq => exact absurd (congrArg (· ++ t) heq) (hplus _)
      · rfl

theorem splitFraction_trims : Trims (part splitFraction) := by
  intro s a v t h
  have h := Except.ok.inj h
  unfold splitFraction at h
  split at h
  · next r _ =>
    obtain ⟨u, rfl, hu⟩ := splitDigits_trims r a v t (congrArg Except.ok h)
    exact ⟨'.' :: u, rfl, hu⟩
  · next hpoint =>
    obtain ⟨rfl, rfl⟩ := Prod.mk.inj h
    refine ⟨[], rfl, ?_⟩
    cases v with
    | nil => rfl
    | cons c v =>
      show Except.ok (splitFraction (c :: v)) = _
      unfold splitFraction
      split
      · next heq => exact absurd (congrArg (· ++ t) heq) (hpoint _)
      · rfl

/-- An exponent is its letter, its sign and its digits. -/
theorem splitExponent_letter {c : Char} (hc : c = 'e' ∨ c = 'E') :
    (fun s => splitExponent (c :: s)) = (do
      let negative ← part splitSign
      let digits ← part splitDigits
      if digits.isEmpty then fun _ => .error .missingExponent
      else pure (if negative then -(digitsValue digits : Int) else digitsValue digits) :
        Scan Char NumeralFault Int) := by
  funext s
  simp only [splitExponent, if_pos hc]
  show _ = (if (splitDigits (splitSign s).2).1.isEmpty then _ else _ : Scan _ _ _)
    (splitDigits (splitSign s).2).2
  split <;> rfl

theorem splitExponent_trims : Trims splitExponent := by
  intro s e v t h
  match s with
  | [] =>
    obtain ⟨rfl, hnil⟩ := Prod.mk.inj (Except.ok.inj h)
    obtain ⟨rfl, rfl⟩ := List.append_eq_nil_iff.1 hnil.symm
    exact ⟨[], rfl, rfl⟩
  | c :: r =>
    by_cases hc : c = 'e' ∨ c = 'E'
    · have htrims : Trims fun s => splitExponent (c :: s) := by
        rw [splitExponent_letter hc]
        refine splitSign_trims.bind fun negative => splitDigits_trims.bind fun digits => ?_
        split
        · exact Scan.trims_error _
        · exact Scan.trims_pure _
      obtain ⟨u, rfl, hu⟩ := htrims r e v t h
      exact ⟨c :: u, rfl, hu⟩
    · rw [splitExponent, if_neg hc] at h
      obtain ⟨rfl, hs⟩ := Prod.mk.inj (Except.ok.inj h)
      refine ⟨[], hs, ?_⟩
      cases v with
      | nil => rfl
      | cons c' v =>
        obtain ⟨rfl, -⟩ := List.cons.inj hs
        rw [List.nil_append, splitExponent, if_neg hc]

/-- A numeral is its sign, its digits, its fraction and its exponent. -/
theorem scan_eq : scan = (do
    let negative ← part splitSign
    let whole ← part splitDigits
    let fraction ← part splitFraction
    if whole.isEmpty && fraction.isEmpty then fun _ => .error .missingDigits
    else do
      let exponent ← splitExponent
      pure ⟨negative, digitsValue (whole ++ fraction), exponent - fraction.length⟩ :
        Scan Char NumeralFault Decimal) := by
  funext s
  unfold scan
  show _ = (if (splitDigits (splitSign s).2).1.isEmpty &&
      (splitFraction (splitDigits (splitSign s).2).2).1.isEmpty then _ else _ : Scan _ _ _)
    (splitFraction (splitDigits (splitSign s).2).2).2
  simp only
  split <;> rfl

/-- **Numerals are trimmed.** -/
theorem scan_trims : Trims scan := by
  rw [scan_eq]
  refine splitSign_trims.bind fun negative => splitDigits_trims.bind fun whole =>
    splitFraction_trims.bind fun fraction => ?_
  split
  · exact Scan.trims_error _
  · exact splitExponent_trims.bind fun _ => Scan.trims_pure _

end Decimal

namespace Path

/-! ## §3. Operands. -/

/-- The reading takes the same from a text which is cut after it.  A fault lies in
    the text, and the text before it is only too short. -/
structure Places {α : Type} (p : Reading α) : Prop where
  trims : Scan.Trims p
  blames : ∀ {s f}, p s = .error f → ∃ u cause, s = u ++ f.rest ∧ p u = .error ⟨cause, []⟩

namespace Places

variable {α β : Type} {p : Reading α} {g : α → Reading β}

theorem pure (a : α) : Places (Pure.pure a : Reading α) where
  trims := Scan.trims_pure a
  blames h := by cases h

theorem bind (hp : Places p) (hg : ∀ a, Places (g a)) : Places (p >>= g) where
  trims := hp.trims.bind fun a => (hg a).trims
  blames {s f} h := by
    rcases Scan.bind_error.1 h with h | ⟨a, w, ha, hb⟩
    · obtain ⟨u, cause, hs, hu⟩ := hp.blames h
      exact ⟨u, cause, hs, Scan.bind_error.2 (.inl hu)⟩
    · obtain ⟨v, cause, rfl, hv⟩ := (hg a).blames hb
      obtain ⟨u, hs, hu⟩ := hp.trims s a v f.rest ha
      exact ⟨u ++ v, cause, by rw [hs, List.append_assoc], Scan.bind_error.2 (.inr ⟨a, v, hu, hv⟩)⟩

end Places

/-- A text which is cut after its separators has the same ones. -/
theorem skipSeparators_append {s v t : List Char} (h : skipSeparators s = v ++ t) :
    ∃ gap, Grammar.Separators gap ∧ s = gap ++ (v ++ t) ∧ skipSeparators (gap ++ v) = v := by
  obtain ⟨hs, -, hdrop⟩ := List.span_append h
  exact ⟨s.takeWhile isSeparator, fun _ hc => List.mem_takeWhile_imp hc, hs, hdrop⟩

theorem skipSeparators_separators {gap : List Char} (h : Grammar.Separators gap) :
    skipSeparators gap = [] :=
  List.dropWhile_eq_nil_iff.2 h

/-- What a number is read from. -/
theorem number_ok {s r : List Char} {x : Scalar} :
    number s = .ok (x, r) ↔ ∃ d, Decimal.scan (skipSeparators s) = .ok (d, r) ∧
      d.toScalar.isFinite = true ∧ x = d.toScalar := by
  simp only [number]
  split
  · simp [*]
  · simp [*]
  · next d t hscan =>
    rw [hscan]
    constructor
    · intro h
      split at h
      · next hfinite =>
        cases h
        exact ⟨d, rfl, hfinite, rfl⟩
      · cases h
    · rintro ⟨d', hd, hfinite, rfl⟩
      cases hd
      rw [if_pos hfinite]

/-- Whatever is wrong with a number, its text is the offending one. -/
theorem number_rest {s : List Char} {f : Fault} (h : number s = .error f) :
    f.rest = skipSeparators s := by
  simp only [number] at h
  split at h
  · cases h
    rfl
  · cases h
    rfl
  · split at h
    · cases h
    · cases h
      rfl

theorem number_places : Places number where
  trims s x v t h := by
    obtain ⟨d, hscan, hfinite, rfl⟩ := number_ok.1 h
    obtain ⟨u, hskip, hu⟩ := Decimal.scan_trims _ d v t hscan
    rw [← List.append_assoc] at hskip
    obtain ⟨gap, -, rfl, hcut⟩ := skipSeparators_append hskip
    refine ⟨gap ++ u, by simp only [List.append_assoc], ?_⟩
    rw [List.append_assoc]
    exact number_ok.2 ⟨d, by rw [hcut, hu], hfinite, rfl⟩
  blames {s f} h := by
    obtain ⟨gap, hgap, hs⟩ := skipSeparators_eq s
    refine ⟨gap, .expectedNumber, by rw [number_rest h]; exact hs, ?_⟩
    simp only [number, skipSeparators_separators hgap]
    rfl

/-- What a flag is read from. -/
theorem flag_ok {s r : List Char} {b : Bool} :
    flag s = .ok (b, r) ↔ skipSeparators s = (if b then '1' else '0') :: r := by
  unfold flag
  split
  · next heq => cases b <;> simp [heq, eq_comm]
  · next heq => cases b <;> simp [heq, eq_comm]
  · next hzero hone =>
    cases b with
    | false => simpa using hzero r
    | true => simpa using hone r

theorem flag_rest {s : List Char} {f : Fault} (h : flag s = .error f) : f.rest = skipSeparators s := by
  unfold flag at h
  split at h
  · cases h
  · cases h
  · cases h
    rfl

theorem flag_places : Places flag where
  trims s b v t h := by
    have hskip := flag_ok.1 h
    rw [← List.cons_append] at hskip
    obtain ⟨gap, -, rfl, hcut⟩ := skipSeparators_append hskip
    refine ⟨gap ++ [if b then '1' else '0'], by simp, ?_⟩
    rw [List.append_assoc]
    exact flag_ok.2 hcut
  blames {s f} h := by
    obtain ⟨gap, hgap, hs⟩ := skipSeparators_eq s
    refine ⟨gap, .expectedFlag, by rw [flag_rest h]; exact hs, ?_⟩
    simp only [flag, skipSeparators_separators hgap]

theorem point_places : Places point :=
  number_places.bind fun _ => number_places.bind fun _ => .pure _

theorem arcShape_places : Places arcShape :=
  point_places.bind fun _ => number_places.bind fun _ => flag_places.bind fun _ =>
    flag_places.bind fun _ => .pure _

theorem operands_places (l : CommandLetter) : Places (operands l) := by
  unfold operands
  split
  · exact point_places.bind fun _ => .pure _
  · exact point_places.bind fun _ => .pure _
  · exact number_places.bind fun _ => .pure _
  · exact number_places.bind fun _ => .pure _
  · exact point_places.bind fun _ => point_places.bind fun _ => point_places.bind fun _ => .pure _
  · exact point_places.bind fun _ => point_places.bind fun _ => .pure _
  · exact point_places.bind fun _ => point_places.bind fun _ => .pure _
  · exact point_places.bind fun _ => .pure _
  · exact arcShape_places.bind fun _ => point_places.bind fun _ => .pure _
  · exact .pure _

/-! ## §4. Commands. -/

namespace Reader

/-- Whatever is wrong with a letter, its text is the offending one. -/
theorem letter_rest {r : Reader} {cs : List Char} {f : Fault} (h : r.letter cs = .error f) :
    f.rest = cs := by
  unfold letter at h
  split at h
  · cases h
    rfl
  · split at h
    · split at h
      · cases h
      · cases h
        rfl
    · split at h
      · cases h
        rfl
      · split at h
        · split at h
          · cases h
          · cases h
            rfl
        · cases h
          rfl

/-- A letter is trimmed, except that a continued one needs something to follow. -/
theorem letter_trims {r : Reader} {cs v t : List Char} {l : CommandLetter}
    (h : r.letter cs = .ok (l, v ++ t)) :
    ∃ u, cs = u ++ (v ++ t) ∧ (u = [] → r.continued = some l) ∧
      (u ++ v ≠ [] → r.letter (u ++ v) = .ok (l, v)) := by
  obtain ⟨hmove, heq | ⟨hcont, ht, c, cs', heq, hplain⟩⟩ := letter_iff.1 h
  · exact ⟨[l.toChar], heq, fun hnil => (List.cons_ne_nil _ _ hnil).elim,
      fun _ => letter_iff.2 ⟨hmove, .inl rfl⟩⟩
  · refine ⟨[], ht.symm, fun _ => hcont, fun hne => letter_iff.2 ⟨hmove, .inr ⟨hcont, rfl, ?_⟩⟩⟩
    obtain ⟨d, w, rfl⟩ := List.exists_cons_of_ne_nil hne
    obtain ⟨rfl, -⟩ := List.cons.inj (heq.symm.trans ht.symm)
    exact ⟨c, w, rfl, hplain⟩

/-- A command has a fault if its letter or its operands have one. -/
theorem command_error_iff {r : Reader} {f : Fault} :
    r.command = .error f ↔ skipSeparators r.rest ≠ [] ∧
      (r.letter (skipSeparators r.rest) = .error f ∨
        ∃ l t, r.letter (skipSeparators r.rest) = .ok (l, t) ∧ operands l t = .error f) := by
  have hoperands : ∀ l t, (do return (l, ← operands l) : Reading (CommandLetter × Command)) t = .error f ↔
      operands l t = .error f := by
    intro l t
    refine Scan.bind_error.trans (or_iff_left ?_)
    rintro ⟨c, u, -, hpure⟩
    cases hpure
  unfold command
  split
  · next h => simp [h]
  · next h =>
    rw [and_iff_right h, ← exists_congr fun l => exists_congr fun t => and_congr_right fun _ => hoperands l t]
    rw [← Scan.bind_error]
    split <;> simp_all

/-- The reader of another text which remembers the same. -/
def withText (r : Reader) (cs : List Char) : Reader := { r with rest := cs }

/-- **A command is trimmed.** -/
theorem command_trims {r s : Reader} {c : Command} {v t : List Char} (hr : r.WellFormed)
    (h : r.command = .ok (some (c, s))) (hs : s.rest = v ++ t) :
    ∃ u, r.rest = u ++ (v ++ t) ∧
      (r.withText (u ++ v)).command = .ok (some (c, s.withText v)) := by
  obtain ⟨l, w, z, hl, hc, rfl⟩ := command_some_iff.1 h
  obtain rfl : z = v ++ t := hs
  obtain ⟨u, rfl, hu⟩ := (operands_places l).trims w c v t hc
  rw [← List.append_assoc] at hl
  obtain ⟨x, hskip, hcont, hx⟩ := letter_trims hl
  -- without a letter there are operands
  have hne : x ++ (u ++ v) ≠ [] := by
    intro hnil
    obtain ⟨hnil, huv⟩ := List.append_eq_nil_iff.1 hnil
    have := operands_takes (hr l (hcont hnil)) _ _ _ hu
    rw [huv] at this
    exact absurd this (Nat.not_lt_zero _)
  rw [← List.append_assoc] at hskip
  obtain ⟨gap, -, hrest, hcut⟩ := skipSeparators_append hskip
  refine ⟨gap ++ (x ++ u), by rw [hrest]; simp only [List.append_assoc], ?_⟩
  refine command_some_iff.2 ⟨l, u ++ v, v, ?_, hu, rfl⟩
  show letter r (skipSeparators (gap ++ (x ++ u) ++ v)) = _
  rw [List.append_assoc, List.append_assoc, hcut]
  exact hx hne

/-- **The text before a fault is no command, or one which ends too early.** -/
theorem command_blames {r : Reader} {f : Fault} (h : r.command = .error f) :
    ∃ u, r.rest = u ++ f.rest ∧ ((r.withText u).command = .ok none ∨
      ∃ cause, (r.withText u).command = .error ⟨cause, []⟩) := by
  obtain ⟨-, hl | ⟨l, w, hl, hc⟩⟩ := command_error_iff.1 h
  · obtain ⟨gap, hgap, hrest⟩ := skipSeparators_eq r.rest
    refine ⟨gap, by rw [letter_rest hl]; exact hrest, .inl ?_⟩
    exact command_none.2 (skipSeparators_separators hgap)
  · obtain ⟨u, cause, rfl, hu⟩ := (operands_places l).blames hc
    obtain ⟨x, hskip, -, hx⟩ := letter_trims hl
    rw [← List.append_assoc] at hskip
    obtain ⟨gap, -, hrest, hcut⟩ := skipSeparators_append hskip
    refine ⟨gap ++ (x ++ u), by rw [hrest]; simp only [List.append_assoc], ?_⟩
    by_cases hne : x ++ u = []
    · exact .inl (command_none.2 (hcut.trans hne))
    · refine .inr ⟨cause, command_error_iff.2 ⟨?_, .inr ⟨l, u, ?_, hu⟩⟩⟩
      · show skipSeparators (gap ++ (x ++ u)) ≠ []
        rwa [hcut]
      · show letter r (skipSeparators (gap ++ (x ++ u))) = _
        rw [hcut]
        exact hx hne

/-- **The text before the fault of a row of commands** gives the same commands, and
    then ends or ends too early. -/
theorem readAll_blames (r : Reader) (h : r.WellFormed) {f : Fault}
    (hfault : (r.readAll h).fault = some f) :
    ∃ u, r.rest = u ++ f.rest ∧ ∀ h' : (r.withText u).WellFormed,
      ((r.withText u).readAll h').commands = (r.readAll h).commands ∧
        (((r.withText u).readAll h').fault = none ∨
          ∃ cause, ((r.withText u).readAll h').fault = some ⟨cause, []⟩) := by
  -- the recursion of the reader: the fault itself, the end, and one more command
  fun_induction Reader.readAll r h with
  | case1 r h f' hc =>
    cases hfault
    obtain ⟨u, hrest, hu⟩ := command_blames hc
    refine ⟨u, hrest, fun h' => ?_⟩
    rcases hu with hu | ⟨cause, hu⟩
    · rw [readAll_none hu]
      exact ⟨rfl, .inl rfl⟩
    · rw [readAll_error hu]
      exact ⟨rfl, .inr ⟨cause, rfl⟩⟩
  | case2 => cases hfault
  | case3 r h c s hc p ih =>
    obtain ⟨v, hrest, hv⟩ := ih hfault
    obtain ⟨u, hu, hcommand⟩ := command_trims h hc hrest
    refine ⟨u ++ v, by rw [hu, List.append_assoc], fun h' => ?_⟩
    rw [readAll_some hcommand]
    obtain ⟨hcommands, hend⟩ := hv (command_some h' hcommand).2
    exact ⟨congrArg (c :: ·) hcommands, hend⟩

end Reader

/-! ## §5. Whole texts. -/

/-- The size of a text is that of its characters. -/
theorem utf8ByteSize_ofList (cs : List Char) : (String.ofList cs).utf8ByteSize = Text.byteLength cs := by
  induction cs with
  | nil => rfl
  | cons c cs ih =>
    rw [String.ofList_cons, String.utf8ByteSize_append, String.utf8ByteSize_singleton, ih]
    rfl

theorem utf8ByteSize_eq (s : String) : s.utf8ByteSize = Text.byteLength s.toList := by
  rw [← utf8ByteSize_ofList, String.ofList_toList]

theorem parseChars_blames {s : List Char} {f : Fault} (h : (parseChars s).fault = some f) :
    ∃ u, s = u ++ f.rest ∧ (parseChars u).commands = (parseChars s).commands ∧
      ((parseChars u).fault = none ∨ ∃ cause, (parseChars u).fault = some ⟨cause, []⟩) := by
  obtain ⟨u, hs, hu⟩ := Reader.readAll_blames _ _ h
  exact ⟨u, hs, hu (Reader.wellFormed_ofChars u)⟩

/-- How a text is refused. -/
theorem parse_error_iff {d : String} {e : Error} :
    parse d = .error e ↔ ∃ f, (parseChars d.toList).fault = some f ∧ e = f.toError d.toList := by
  unfold parse
  simp only
  cases (parseChars d.toList).fault <;> simp [eq_comm]

theorem parse_ok_iff {d : String} {cs : List Command} :
    parse d = .ok cs ↔ (parseChars d.toList).fault = none ∧ cs = (parseChars d.toList).commands := by
  unfold parse
  simp only
  cases (parseChars d.toList).fault <;> simp [eq_comm]

/-- **An error points at the offending token.**  Its offset lies in the text,
    between two characters; its fragment are the first sixteen characters from
    there on, or all of them.  The text before that place gives the same commands
    as the whole one, and is either accepted or refused at its own end. -/
theorem parse_error_place {d : String} {e : Error} (h : parse d = .error e) :
    e.offset ≤ d.utf8ByteSize ∧ String.Pos.Raw.IsValid d ⟨e.offset⟩ ∧
      ∃ before rest : String, d = before ++ rest ∧ before.utf8ByteSize = e.offset ∧
        e.fragment.toList = rest.toList.take 16 ∧ e.fragment.length = min 16 rest.length ∧
        (parseChars before.toList).commands = (parseChars d.toList).commands ∧
        (parse before = .ok (parseChars d.toList).commands ∨
          ∃ e', parse before = .error e' ∧ e'.offset = e.offset) := by
  obtain ⟨f, hfault, rfl⟩ := parse_error_iff.1 h
  obtain ⟨u, hu, hcommands, hend⟩ := parseChars_blames hfault
  have hd : d = String.ofList u ++ String.ofList f.rest := by
    rw [← String.ofList_append, ← hu, String.ofList_toList]
  have hoffset : (f.toError d.toList).offset = (String.ofList u).utf8ByteSize := by
    show Text.byteLength d.toList - Text.byteLength f.rest = _
    rw [hu, Text.byteLength_append, Nat.add_sub_cancel, utf8ByteSize_ofList]
  refine ⟨?_, ?_, String.ofList u, String.ofList f.rest, hd, hoffset.symm, ?_, ?_, ?_, ?_⟩
  · rw [hoffset]
    conv_rhs => rw [hd]
    rw [String.utf8ByteSize_append]
    exact Nat.le_add_right _ _
  · refine String.Pos.Raw.isValid_iff_exists_append.2 ⟨_, _, hd, ?_⟩
    rw [hoffset]
    rfl
  · show (String.ofList _).toList = _
    rw [String.toList_ofList, String.toList_ofList]
    rfl
  · show (String.ofList _).length = _
    rw [String.length_ofList, String.length_ofList, List.length_take]
    rfl
  · rw [String.toList_ofList, hcommands]
  · rcases hend with hnone | ⟨cause, hsome⟩
    · exact .inl (parse_ok_iff.2 ⟨by rw [String.toList_ofList, hnone],
        by rw [String.toList_ofList, hcommands]⟩)
    · refine .inr ⟨_, parse_error_iff.2 ⟨⟨cause, []⟩, by rw [String.toList_ofList, hsome], rfl⟩, ?_⟩
      rw [hoffset, utf8ByteSize_ofList, String.toList_ofList]
      exact Nat.sub_zero _

/-- The offset counts bytes, and a character of two bytes begins at it. -/
theorem parse_error_accented :
    parse "M1 1L2 é3é" = .error ⟨.expectedNumber, 7, "é3é"⟩ ∧
      String.Pos.Raw.IsValid "M1 1L2 é3é" ⟨7⟩ := by
  have hfault : (parseChars "M1 1L2 é3é".toList).fault = some ⟨.expectedNumber, "é3é".toList⟩ := by
    decide +kernel
  have h : parse "M1 1L2 é3é" = .error ⟨.expectedNumber, 7, "é3é"⟩ :=
    parse_error_iff.2 ⟨_, hfault, by decide +kernel⟩
  exact ⟨h, (parse_error_place h).2.1⟩

end Path

end VectorIcon

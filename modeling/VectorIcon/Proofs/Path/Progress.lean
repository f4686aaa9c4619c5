/-
  VectorIcon.Proofs.Path.Progress
  ────────────────────────────────
  **CALLS FOR COMMANDS COME TO AN END.**

  The tapes which come of a text by reading commands and by calls are well formed
  and hold its bytes (`Tape.Reached.wellFormed`), so that every command moves on
  within the text: there are no more commands than bytes (`Tape.Answers.length_le`).

  Once it has nothing to give, or after a report, a tape is stopped.  A stopped
  tape answers nothing and stays as it is (`Tape.next_stopped`), so that the answers
  to all calls are those of `Tape.Answers` and then none (`Tape.Answers.answer`).
  Nothing is supposed of the library of numbers.
-/
import VectorIcon.Proofs.Path.Tape

namespace VectorIcon

namespace Path

namespace Tape

/-! ## §1. Tapes of a text. -/

/-- The tapes which come of a text by reading commands and by calls, in any order and
    whatever they give. -/
inductive Reached (library : NumberLibrary) (d : String) : Tape → Prop where
  | start : Reached library d (ofText d)
  | command {t : Tape} : Reached library d t → Reached library d ((Step.command library).start t).2
  | next {t : Tape} : Reached library d t → Reached library d (t.next library).2

theorem length_ofText (d : String) : (ofText d).bytes.length = d.utf8ByteSize := by
  rw [utf8ByteSize_eq]
  exact Text.length_bytes d.toList

section

variable {library : NumberLibrary} {d : String} {t s : Tape} {cs : List Command}
  {refusal : Option Report}

theorem Reached.onward (h : Reached library d t) : (ofText d).Onward t := by
  induction h with
  | start => exact .refl _
  | command _ ih => exact ih.trans (Step.command_keeps library _)
  | next _ ih => exact ih.trans (next_onward library rfl)

theorem Reached.wellFormed (h : Reached library d t) : t.WellFormed :=
  h.onward.wellFormed (wellFormed_ofText d)

/-- **A command which is read moves on within the text.** -/
theorem Reached.command_moves (h : Reached library d t) {c : Command}
    (hc : (Step.command library).start t = (.ok (some c), s)) :
    t.offset < s.offset ∧ s.offset ≤ d.utf8ByteSize := by
  have honward := (Step.command_keeps library).ok hc
  have hinside := (honward.wellFormed h.wellFormed).inside
  rw [honward.bytes, h.onward.bytes, length_ofText] at hinside
  exact ⟨Step.command_some library h.wellFormed hc, hinside⟩

/-! ## §2. The number of commands. -/

/-- A well formed tape answers commands and comes to an end. -/
theorem exists_answers (library : NumberLibrary) (ht : t.WellFormed) : ∃ cs refusal, Answers library t cs refusal := by
  fun_induction collect library t ht with
  | case1 t ht s hnext => exact ⟨_, _, .ended hnext⟩
  | case2 t ht e s hnext => exact ⟨_, _, .refused hnext⟩
  | case3 t ht c s hnext ih =>
    obtain ⟨cs, refusal, h⟩ := ih
    exact ⟨_, _, .given hnext h⟩

/-- **There are no more commands than bytes** which are left. -/
theorem Answers.length_le (h : Answers library t cs refusal) (ht : t.WellFormed) :
    t.offset + cs.length ≤ t.bytes.length := by
  induction h with
  | ended _ => exact ht.inside
  | refused _ => exact ht.inside
  | given hnext _ ih =>
    have honward := next_onward library hnext
    have hmoves := next_some library ht hnext
    have hrest := ih (honward.wellFormed ht)
    rw [honward.bytes] at hrest
    rw [List.length_cons]
    omega

/-! ## §3. Calls after the end. -/

/-- Nothing is given any more. -/
def Stopped (t : Tape) : Prop := t.failed = true ∨ t.peek = none

/-- **A stopped tape gives nothing and stays as it is.** -/
theorem next_stopped (library : NumberLibrary) (h : t.Stopped) : t.next library = (none, t) := by
  by_cases hfailed : t.failed = true
  · exact if_pos hfailed
  · rw [next, if_neg hfailed, Step.command_end library (h.resolve_left hfailed)]
    rw [Bool.not_eq_true] at hfailed
    cases t
    cases hfailed
    rfl

/-- A tape which does not give a command is stopped. -/
theorem next_stops {x : Option (Except Report Command)} (h : t.next library = (x, s))
    (hx : ∀ c, x ≠ some (.ok c)) : s.Stopped := by
  unfold next at h
  split at h
  · next hfailed =>
    cases h
    exact .inl hfailed
  · split at h
    · next hrun =>
      cases h
      have hend := Step.command_none library hrun
      exact .inr hend
    · cases h
      exact absurd rfl (hx _)
    · cases h
      exact .inl rfl

/-- What the call after a number of calls answers. -/
def answer (library : NumberLibrary) : Tape → Nat → Option (Except Report Command)
  | t, 0 => (t.next library).1
  | t, n + 1 => answer library (t.next library).2 n

theorem answer_stopped (h : t.Stopped) (n : Nat) : t.answer library n = none := by
  induction n with
  | zero => rw [answer, next_stopped library h]
  | succ n ih => rwa [answer, next_stopped library h]

/-- **All calls answer the commands, then the report, then nothing.** -/
theorem Answers.answer (h : Answers library t cs refusal) (n : Nat) :
    t.answer library n = (cs.map .ok ++ (refusal.map .error).toList)[n]? := by
  induction h generalizing n with
  | ended hnext =>
    cases n with
    | zero => rw [Tape.answer, hnext]; rfl
    | succ n => rw [Tape.answer, hnext]; exact answer_stopped (next_stops hnext nofun) n
  | refused hnext =>
    cases n with
    | zero => rw [Tape.answer, hnext]; rfl
    | succ n => rw [Tape.answer, hnext]; exact answer_stopped (next_stops hnext nofun) n
  | given hnext _ ih =>
    cases n with
    | zero => rw [Tape.answer, hnext]; rfl
    | succ n => rw [Tape.answer, hnext]; exact ih n

/-- What a tape answers is determined. -/
theorem Answers.unique {cs' : List Command} {refusal' : Option Report}
    (h : Answers library t cs refusal) (h' : Answers library t cs' refusal') :
    cs = cs' ∧ refusal = refusal' := by
  induction h generalizing cs' with
  | ended hnext =>
    cases h' with
    | ended => exact ⟨rfl, rfl⟩
    | refused hnext' => cases hnext.symm.trans hnext'
    | given hnext' _ => cases hnext.symm.trans hnext'
  | refused hnext =>
    cases h' with
    | ended hnext' => cases hnext.symm.trans hnext'
    | refused hnext' =>
      cases hnext.symm.trans hnext'
      exact ⟨rfl, rfl⟩
    | given hnext' _ => cases hnext.symm.trans hnext'
  | given hnext _ ih =>
    cases h' with
    | ended hnext' => cases hnext.symm.trans hnext'
    | refused hnext' => cases hnext.symm.trans hnext'
    | given hnext' hrest =>
      cases hnext.symm.trans hnext'
      obtain ⟨rfl, rfl⟩ := ih hrest
      exact ⟨rfl, rfl⟩

end

/-! ## §4. Calls for the commands of a text. -/

/-- **Reading commands moves on, and calls for them come to an end.**  A command which
    is read takes at least a byte and stays within the text.  The calls answer no more
    commands than there are bytes, then at most one report, and then nothing; these
    commands or the report are what is collected, and with a lawful library they are
    what the text is parsed to.  Whichever tape does not give a command, it gives
    nothing any more. -/
theorem calls_progress (library : NumberLibrary) (d : String) :
    (∀ t s c, Reached library d t → (Step.command library).start t = (.ok (some c), s) →
      t.offset < s.offset ∧ s.offset ≤ d.utf8ByteSize) ∧
    (∃ (cs : List Command) (refusal : Option Report),
      cs.length ≤ d.utf8ByteSize ∧
      (∀ n, (ofText d).answer library n = (cs.map .ok ++ (refusal.map .error).toList)[n]?) ∧
      (ofText d).collect library (wellFormed_ofText d) = refusal.elim (.ok cs) .error ∧
      (library.Lawful → cs = (parseChars d.toList).commands ∧
        refusal = (parseChars d.toList).fault.map fun f => (f.toError d.toList).report)) ∧
    ∀ t s x, Reached library d t → t.next library = (x, s) → (∀ c, x ≠ some (.ok c)) →
      ∀ n, s.answer library n = none := by
  refine ⟨fun t s c ht hc => ht.command_moves hc, ?_, fun t s x _ hnext hx =>
    answer_stopped (next_stops hnext hx)⟩
  have hwell := wellFormed_ofText d
  obtain ⟨cs, refusal, h⟩ := exists_answers library hwell
  have hlength : 0 + cs.length ≤ d.utf8ByteSize := length_ofText d ▸ h.length_le hwell
  rw [Nat.zero_add] at hlength
  exact ⟨cs, refusal, hlength, h.answer, h.collect hwell, fun hl => h.unique (answers_text hl d)⟩

/-- A move is read and an exponent without digits is reported; the third call and all
    after it have no answer. -/
theorem calls_progress_cut :
    NumberLibrary.standard.Lawful ∧
    (∃ c s, (Step.command NumberLibrary.standard).start (ofText "M1 1L1e") = (.ok (some c), s) ∧
      0 < s.offset ∧ s.offset ≤ 7) ∧
    (∃ c, ∀ n, (ofText "M1 1L1e").answer NumberLibrary.standard n =
      [.ok c, .error ⟨"malformed exponent", 5, "1e"⟩][n]?) ∧
    ∃ s, (ofText "").next NumberLibrary.standard = (none, s) ∧
      ∀ n, s.answer NumberLibrary.standard n = none := by
  obtain ⟨hmoves, ⟨cs, refusal, -, hanswer, -, hlawful⟩, -⟩ :=
    calls_progress NumberLibrary.standard "M1 1L1e"
  obtain ⟨-, -, hfused⟩ := calls_progress NumberLibrary.standard ""
  refine ⟨NumberLibrary.standard_lawful, ?_, ?_, ?_⟩
  · have hsome : ((Step.command NumberLibrary.standard).start
        (ofText "M1 1L1e")).1.toOption.join.isSome = true := by decide +kernel
    rcases hrun : (Step.command NumberLibrary.standard).start (ofText "M1 1L1e") with ⟨e | _ | c, s⟩
    · rw [hrun] at hsome
      cases hsome
    · rw [hrun] at hsome
      cases hsome
    · exact ⟨c, s, rfl, hmoves _ s c .start hrun⟩
  · obtain ⟨hcs, hrefusal⟩ := hlawful NumberLibrary.standard_lawful
    have hlength : (parseChars "M1 1L1e".toList).commands.length = 1 := by decide +kernel
    have hfault : (parseChars "M1 1L1e".toList).fault = some ⟨.malformedExponent, "1e".toList⟩ := by
      decide +kernel
    obtain ⟨c, hc⟩ := List.length_eq_one_iff.1 hlength
    refine ⟨c, fun n => ?_⟩
    rw [hanswer n, hrefusal, hfault, hcs, hc]
    have hreport : (Fault.toError ⟨.malformedExponent, "1e".toList⟩ "M1 1L1e".toList).report =
        ⟨"malformed exponent", 5, "1e"⟩ := by decide +kernel
    rw [Option.map_some, hreport]
    rfl
  · have hend : (ofText "").peek = none := rfl
    have hnext := next_stopped NumberLibrary.standard (.inr hend)
    exact ⟨_, hnext, hfused _ _ none .start hnext nofun⟩

end Tape

end Path

end VectorIcon

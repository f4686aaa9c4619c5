/-
  VectorIcon.Proofs.Path.Grammar
  ────────────────────────────────
  **PATH DATA IS READ BY ITS GRAMMAR.**

  Path data is zero or more command groups, the first of which is a move with its
  letter.  A group is a letter and its operands, or the operands alone, which
  stand for the letter before: for lines after a move, for nothing after a close.
  Separators may stand before every letter and operand and at the end.  Numbers
  are the longest numerals, and finite; the flags of an arc are one character.

  `Grammar.PathData` says this as rules.  Every reading agrees with its rule in
  both directions (`Recognizes`), where a number needs to know that no exponent
  letter follows it: nothing in the grammar begins with one.  Together:

      parse_grammar — a text is read as commands if and only if the grammar
                      derives them from it, and is refused if it derives nothing
-/
import VectorIcon.Proofs.Number.Numeral
import VectorIcon.Proofs.Path.Commands

namespace VectorIcon

namespace Path

/-! ## §1. The grammar. -/

namespace Grammar

/-- Nothing but separators. -/
def Separators (t : List Char) : Prop := ∀ c ∈ t, isSeparator c = true

/-- A finite number at the front of a text, and what follows it. -/
inductive Number : List Char → Scalar → List Char → Prop where
  | intro {gap t r : List Char} {d : Decimal} : Separators gap → d.Numeral t →
      Decimal.Longest t r → d.toScalar.isFinite = true → Number (gap ++ (t ++ r)) d.toScalar r

/-- A flag is one character. -/
inductive Flag : List Char → Bool → List Char → Prop where
  | zero {gap r : List Char} : Separators gap → Flag (gap ++ '0' :: r) false r
  | one {gap r : List Char} : Separators gap → Flag (gap ++ '1' :: r) true r

/-- A point is two numbers. -/
inductive Pair : List Char → Point → List Char → Prop where
  | intro {s t r : List Char} {x y : Scalar} : Number s x t → Number t y r → Pair s ⟨x, y⟩ r

/-- The operands of an arc before its target. -/
inductive Shape : List Char → ArcShape → List Char → Prop where
  | intro {s t u v r : List Char} {radii : Point} {rotation : Scalar} {large sweep : Bool} :
      Pair s radii t → Number t rotation u → Flag u large v → Flag v sweep r →
      Shape s ⟨radii, rotation, large, sweep⟩ r

/-- The operands of a letter. -/
inductive Operands (f : Frame) : CommandKind → List Char → Command → List Char → Prop where
  | move {s r : List Char} {p : Point} : Pair s p r → Operands f .move s (.moveTo f p) r
  | line {s r : List Char} {p : Point} : Pair s p r → Operands f .line s (.lineTo f p) r
  | horizontal {s r : List Char} {x : Scalar} : Number s x r →
      Operands f .horizontal s (.horizontalTo f x) r
  | vertical {s r : List Char} {y : Scalar} : Number s y r →
      Operands f .vertical s (.verticalTo f y) r
  | cubic {s t u r : List Char} {a b p : Point} : Pair s a t → Pair t b u → Pair u p r →
      Operands f .cubic s (.cubicTo f a b p) r
  | smoothCubic {s t r : List Char} {b p : Point} : Pair s b t → Pair t p r →
      Operands f .smoothCubic s (.smoothCubicTo f b p) r
  | quad {s t r : List Char} {a p : Point} : Pair s a t → Pair t p r →
      Operands f .quad s (.quadTo f a p) r
  | smoothQuad {s r : List Char} {p : Point} : Pair s p r →
      Operands f .smoothQuad s (.smoothQuadTo f p) r
  | arc {s t r : List Char} {shape : ArcShape} {p : Point} : Shape s shape t → Pair t p r →
      Operands f .arc s (.arcTo f shape p) r
  | close {r : List Char} : Operands f .close r .close r

/-- The groups of a text, after a group whose letter may be continued. -/
inductive Groups : Option CommandLetter → List Char → List Command → Prop where
  | done {previous : Option CommandLetter} {gap : List Char} : Separators gap →
      Groups previous gap []
  | lettered {previous : Option CommandLetter} {gap s r : List Char} {l : CommandLetter}
      {c : Command} {cs : List Command} : Separators gap → Operands l.frame l.kind s c r →
      Groups l.continued? r cs → Groups previous (gap ++ l.toChar :: s) (c :: cs)
  | continued {s r : List Char} {l : CommandLetter} {c : Command} {cs : List Command} :
      Operands l.frame l.kind s c r → Groups l.continued? r cs → Groups (some l) s (c :: cs)

/-- Path data: no group at all, or a move with its letter and then any groups. -/
inductive PathData : List Char → List Command → Prop where
  | empty {gap : List Char} : Separators gap → PathData gap []
  | starting {gap s r : List Char} {f : Frame} {p : Point} {cs : List Command} :
      Separators gap → Pair s p r → Groups (some ⟨.line, f⟩) r cs →
      PathData (gap ++ (CommandLetter.mk .move f).toChar :: s) (.moveTo f p :: cs)

end Grammar

open Grammar

/-! ## §2. First characters. -/

/-- The characters which begin a numeral. -/
def IsNumeralStart (c : Char) : Prop := Decimal.isDigit c = true ∨ c = '.' ∨ c = '+' ∨ c = '-'

theorem numeral_starts {t : List Char} {d : Decimal} (h : d.Numeral t) (v : List Char) :
    ∃ c u, t ++ v = c :: u ∧ IsNumeralStart c := by
  obtain ⟨hs, hm, -⟩ := h
  next s m e w f negative k =>
  cases hs with
  | plus => exact ⟨'+', _, rfl, .inr (.inr (.inl rfl))⟩
  | minus => exact ⟨'-', _, rfl, .inr (.inr (.inr rfl))⟩
  | none =>
    have hhead := hm.head (e ++ v)
    rw [List.nil_append, List.append_assoc]
    cases hcs : m ++ (e ++ v) with
    | nil => cases hm <;> simp_all
    | cons c u =>
      rw [hcs] at hhead
      rcases hhead c rfl with hc | hc
      · exact ⟨c, u, rfl, .inl hc⟩
      · exact ⟨c, u, rfl, .inr (.inl hc)⟩

theorem isDigit_bounds {c : Char} (h : Decimal.isDigit c = true) : 48 ≤ c.toNat ∧ c.toNat ≤ 57 := by
  simp only [Decimal.isDigit, Bool.and_eq_true, decide_eq_true_eq] at h
  exact h

theorem isAsciiLetter_bounds {c : Char} (h : isAsciiLetter c = true) : 65 ≤ c.toNat := by
  simp only [isAsciiLetter, Bool.or_eq_true, Bool.and_eq_true, decide_eq_true_eq] at h
  rcases h with h | h
  · exact Nat.le_trans (by decide) h.1
  · exact h.1

theorem isSeparator_bounds {c : Char} (h : isSeparator c = true) : c.toNat ≤ 32 ∨ c.toNat = 44 := by
  simp only [isSeparator, Bool.or_eq_true, decide_eq_true_eq] at h
  rcases h with ((((rfl | rfl) | rfl) | rfl) | rfl) | rfl <;> decide

theorem exponentLetter_bounds {c : Char} (h : Decimal.IsExponentLetter c) : 65 ≤ c.toNat := by
  rcases h with rfl | rfl <;> decide

theorem toChar_bounds (l : CommandLetter) :
    65 ≤ l.toChar.toNat ∧ ¬isSeparator l.toChar = true ∧ ¬Decimal.IsExponentLetter l.toChar := by
  obtain ⟨kind, frame⟩ := l
  unfold Decimal.IsExponentLetter
  cases kind <;> cases frame <;> decide

/-- A numeral begins with no separator, and with no letter of any kind. -/
theorem numeralStart_plain {c : Char} (h : IsNumeralStart c) :
    ¬isSeparator c = true ∧ ¬isAsciiLetter c = true ∧ ¬Decimal.IsExponentLetter c ∧
      CommandLetter.ofChar? c = none := by
  have hc : 43 ≤ c.toNat ∧ c.toNat ≠ 44 ∧ c.toNat ≤ 57 := by
    rcases h with h | rfl | rfl | rfl
    · have := isDigit_bounds h
      omega
    all_goals decide
  refine ⟨fun hs => ?_, fun hl => ?_, fun he => ?_, Option.eq_none_iff_forall_ne_some.2 fun l hl => ?_⟩
  · have := isSeparator_bounds hs
    omega
  · have := isAsciiLetter_bounds hl
    omega
  · have := exponentLetter_bounds he
    omega
  · have := (toChar_bounds l).1
    rw [← ofChar?_some hl] at this
    omega

theorem skipSeparators_gap {gap : List Char} (h : Separators gap) {c : Char}
    (hc : ¬isSeparator c = true) (u : List Char) : skipSeparators (gap ++ c :: u) = c :: u := by
  unfold skipSeparators
  rw [List.dropWhile_append_of_pos h, List.dropWhile_cons_of_neg hc]

/-- What is skipped are separators. -/
theorem skipSeparators_eq (s : List Char) :
    ∃ gap, Separators gap ∧ s = gap ++ skipSeparators s :=
  ⟨s.takeWhile isSeparator, fun _ hc => List.mem_takeWhile_imp hc,
    List.takeWhile_append_dropWhile.symm⟩

/-- No exponent letter begins the text. -/
def Unexponented (s : List Char) : Prop := ∀ c ∈ s.head?, ¬Decimal.IsExponentLetter c

theorem unexponented_gap {gap : List Char} (h : Separators gap) {c : Char}
    (hc : ¬Decimal.IsExponentLetter c) (u : List Char) : Unexponented (gap ++ c :: u) := by
  intro d hd he
  cases gap with
  | nil =>
    cases hd
    exact hc he
  | cons x gap =>
    cases hd
    have := isSeparator_bounds (h d List.mem_cons_self)
    have := exponentLetter_bounds he
    omega

theorem unexponented_separators {gap : List Char} (h : Separators gap) : Unexponented gap := by
  cases gap with
  | nil =>
    intro d hd
    cases hd
  | cons c gap =>
    have hc := isSeparator_bounds (h c List.mem_cons_self)
    have hne : ¬Decimal.IsExponentLetter c := fun he => by
      have := exponentLetter_bounds he
      omega
    exact @unexponented_gap [] (fun _ h => absurd h List.not_mem_nil) c hne gap

/-! ## §3. Operands. -/

/-- A reading agrees with a rule of the grammar.  The rule is found by the
    reading if what follows does not begin with an exponent letter; and then
    its own text does not either. -/
structure Recognizes {α : Type} (p : Reading α) (rule : List Char → α → List Char → Prop) : Prop where
  sound : ∀ {s a r}, p s = .ok (a, r) → rule s a r
  complete : ∀ {s a r}, rule s a r → Unexponented r → p s = .ok (a, r)
  starts : ∀ {s a r}, rule s a r → Unexponented r → Unexponented s

namespace Recognizes

variable {α β : Type} {p : Reading α} {f : α → Reading β}
  {rule rule' : List Char → α → List Char → Prop} {next : α → List Char → β → List Char → Prop}

theorem congr (h : Recognizes p rule) (hrule : ∀ s a r, rule s a r ↔ rule' s a r) :
    Recognizes p rule' :=
  ⟨fun hs => (hrule _ _ _).1 (h.sound hs), fun hs => h.complete ((hrule _ _ _).2 hs),
    fun hs => h.starts ((hrule _ _ _).2 hs)⟩

theorem pure (a : α) : Recognizes (Pure.pure a) fun s b r => b = a ∧ r = s where
  sound h := Scan.pure_ok.1 h
  complete h _ := Scan.pure_ok.2 h
  starts h hr := h.2 ▸ hr

/-- One rule after the other. -/
theorem bind (hp : Recognizes p rule) (hf : ∀ a, Recognizes (f a) (next a)) :
    Recognizes (p >>= f) fun s b r => ∃ a t, rule s a t ∧ next a t b r where
  sound h := by
    obtain ⟨a, t, ha, hb⟩ := Scan.bind_ok.1 h
    exact ⟨a, t, hp.sound ha, (hf a).sound hb⟩
  complete h hr := by
    obtain ⟨a, t, ha, hb⟩ := h
    exact Scan.bind_ok.2 ⟨a, t, hp.complete ha ((hf a).starts hb hr), (hf a).complete hb hr⟩
  starts h hr := by
    obtain ⟨a, t, ha, hb⟩ := h
    exact hp.starts ha ((hf a).starts hb hr)

end Recognizes

theorem number_recognizes : Recognizes number Number where
  sound {s x r} h := by
    obtain ⟨gap, hgap, hs⟩ := skipSeparators_eq s
    unfold number at h
    simp only at h
    split at h
    · cases h
    · cases h
    · next d t hscan =>
      split at h
      · next hfinite =>
        cases h
        obtain ⟨t, heq, hd, hlong⟩ := Decimal.scan_sound hscan
        rw [hs, heq]
        exact .intro hgap hd hlong hfinite
      · cases h
  complete {s x r} h hr := by
    obtain ⟨hgap, hd, hlong, hfinite⟩ := h
    next gap t d =>
    obtain ⟨c, u, htext, hc⟩ := numeral_starts hd r
    have hskip : skipSeparators (gap ++ (t ++ r)) = t ++ r := by
      rw [htext, skipSeparators_gap hgap (numeralStart_plain hc).1]
    simp only [number, hskip, Decimal.scan_longest hd hlong hr, hfinite, if_true]
  starts {s x r} h _ := by
    obtain ⟨hgap, hd, -, -⟩ := h
    next gap t d =>
    obtain ⟨c, u, htext, hc⟩ := numeral_starts hd r
    rw [htext]
    exact unexponented_gap hgap (numeralStart_plain hc).2.2.1 u

theorem flag_recognizes : Recognizes flag Flag where
  sound {s b r} h := by
    obtain ⟨gap, hgap, hs⟩ := skipSeparators_eq s
    unfold flag at h
    split at h
    · next heq =>
      cases h
      rw [hs, heq]
      exact .zero hgap
    · next heq =>
      cases h
      rw [hs, heq]
      exact .one hgap
    · cases h
  complete {s b r} h _ := by
    unfold flag
    cases h with
    | zero hgap | one hgap =>
      rw [skipSeparators_gap hgap (by decide)]
      rfl
  starts {s b r} h _ := by
    cases h with
    | zero hgap | one hgap =>
      exact unexponented_gap hgap (by unfold Decimal.IsExponentLetter; decide) r

theorem point_recognizes : Recognizes point Pair := by
  refine (number_recognizes.bind fun x => number_recognizes.bind fun y => .pure (Point.mk x y)).congr
    fun s p r => ⟨?_, ?_⟩
  · rintro ⟨x, t, hx, y, u, hy, rfl, rfl⟩
    exact .intro hx hy
  · rintro ⟨hx, hy⟩
    exact ⟨_, _, hx, _, _, hy, rfl, rfl⟩

theorem arcShape_recognizes : Recognizes arcShape Grammar.Shape := by
  refine (point_recognizes.bind fun radii => number_recognizes.bind fun rotation =>
    flag_recognizes.bind fun large => flag_recognizes.bind fun sweep =>
      .pure (ArcShape.mk radii rotation large sweep)).congr fun s a r => ⟨?_, ?_⟩
  · rintro ⟨radii, t, hradii, rotation, u, hrotation, large, v, hlarge, sweep, w, hsweep, rfl, rfl⟩
    exact .intro hradii hrotation hlarge hsweep
  · rintro ⟨hradii, hrotation, hlarge, hsweep⟩
    exact ⟨_, _, hradii, _, _, hrotation, _, _, hlarge, _, _, hsweep, rfl, rfl⟩

theorem operands_recognizes (l : CommandLetter) : Recognizes (operands l) (Operands l.frame l.kind) := by
  obtain ⟨kind, f⟩ := l
  cases kind with
  | move =>
    refine (point_recognizes.bind fun p => .pure (Command.moveTo f p)).congr fun s c r => ⟨?_, ?_⟩
    · rintro ⟨p, t, hp, rfl, rfl⟩
      exact .move hp
    · intro h
      cases h with
      | move hp => exact ⟨_, _, hp, rfl, rfl⟩
  | line =>
    refine (point_recognizes.bind fun p => .pure (Command.lineTo f p)).congr fun s c r => ⟨?_, ?_⟩
    · rintro ⟨p, t, hp, rfl, rfl⟩
      exact .line hp
    · intro h
      cases h with
      | line hp => exact ⟨_, _, hp, rfl, rfl⟩
  | horizontal =>
    refine (number_recognizes.bind fun x => .pure (Command.horizontalTo f x)).congr fun s c r => ⟨?_, ?_⟩
    · rintro ⟨x, t, hx, rfl, rfl⟩
      exact .horizontal hx
    · intro h
      cases h with
      | horizontal hx => exact ⟨_, _, hx, rfl, rfl⟩
  | vertical =>
    refine (number_recognizes.bind fun y => .pure (Command.verticalTo f y)).congr fun s c r => ⟨?_, ?_⟩
    · rintro ⟨y, t, hy, rfl, rfl⟩
      exact .vertical hy
    · intro h
      cases h with
      | vertical hy => exact ⟨_, _, hy, rfl, rfl⟩
  | cubic =>
    refine (point_recognizes.bind fun a => point_recognizes.bind fun b =>
      point_recognizes.bind fun p => .pure (Command.cubicTo f a b p)).congr fun s c r => ⟨?_, ?_⟩
    · rintro ⟨a, t, ha, b, u, hb, p, v, hp, rfl, rfl⟩
      exact .cubic ha hb hp
    · intro h
      cases h with
      | cubic ha hb hp => exact ⟨_, _, ha, _, _, hb, _, _, hp, rfl, rfl⟩
  | smoothCubic =>
    refine (point_recognizes.bind fun b => point_recognizes.bind fun p =>
      .pure (Command.smoothCubicTo f b p)).congr fun s c r => ⟨?_, ?_⟩
    · rintro ⟨b, t, hb, p, u, hp, rfl, rfl⟩
      exact .smoothCubic hb hp
    · intro h
      cases h with
      | smoothCubic hb hp => exact ⟨_, _, hb, _, _, hp, rfl, rfl⟩
  | quad =>
    refine (point_recognizes.bind fun a => point_recognizes.bind fun p =>
      .pure (Command.quadTo f a p)).congr fun s c r => ⟨?_, ?_⟩
    · rintro ⟨a, t, ha, p, u, hp, rfl, rfl⟩
      exact .quad ha hp
    · intro h
      cases h with
      | quad ha hp => exact ⟨_, _, ha, _, _, hp, rfl, rfl⟩
  | smoothQuad =>
    refine (point_recognizes.bind fun p => .pure (Command.smoothQuadTo f p)).congr fun s c r => ⟨?_, ?_⟩
    · rintro ⟨p, t, hp, rfl, rfl⟩
      exact .smoothQuad hp
    · intro h
      cases h with
      | smoothQuad hp => exact ⟨_, _, hp, rfl, rfl⟩
  | arc =>
    refine (arcShape_recognizes.bind fun shape => point_recognizes.bind fun p =>
      .pure (Command.arcTo f shape p)).congr fun s c r => ⟨?_, ?_⟩
    · rintro ⟨shape, t, hshape, p, u, hp, rfl, rfl⟩
      exact .arc hshape hp
    · intro h
      cases h with
      | arc hshape hp => exact ⟨_, _, hshape, _, _, hp, rfl, rfl⟩
  | close =>
    refine (Recognizes.pure Command.close).congr fun s c r => ⟨?_, ?_⟩
    · rintro ⟨rfl, rfl⟩
      exact .close
    · intro h
      cases h with
      | close => exact ⟨rfl, rfl⟩

/-! ## §4. Groups. -/

/-- Separators may stand before a number. -/
theorem number_gap {gap s r : List Char} {x : Scalar} (hgap : Separators gap) (h : Number s x r) :
    Number (gap ++ s) x r := by
  obtain ⟨hgap', hd, hlong, hfinite⟩ := h
  rw [← List.append_assoc]
  refine .intro (fun c hc => ?_) hd hlong hfinite
  exact (List.mem_append.1 hc).elim (hgap c) (hgap' c)

/-- After separators a number begins as numerals do. -/
theorem number_skipped {s r : List Char} {x : Scalar} (h : Number s x r) :
    Number (skipSeparators s) x r ∧ ∃ c u, skipSeparators s = c :: u ∧ IsNumeralStart c := by
  obtain ⟨hgap, hd, hlong, hfinite⟩ := h
  next gap t d =>
  obtain ⟨c, u, htext, hc⟩ := numeral_starts hd r
  have hskip : skipSeparators (gap ++ (t ++ r)) = t ++ r := by
    rw [htext, skipSeparators_gap hgap (numeralStart_plain hc).1]
  rw [hskip]
  exact ⟨@Number.intro [] t r d (fun _ h => absurd h List.not_mem_nil) hd hlong hfinite, c, u,
    htext, hc⟩

/-- Operands begin with a number, unless there are none. -/
theorem operands_first {f : Frame} {kind : CommandKind} {s r : List Char} {c : Command}
    (hkind : kind ≠ .close) (h : Operands f kind s c r) :
    ∃ x t, Number s x t ∧ ∀ s', Number s' x t → Operands f kind s' c r := by
  have hpair : ∀ {s p r}, Pair s p r → ∃ x t, Number s x t ∧ ∀ s', Number s' x t → Pair s' p r := by
    rintro _ _ _ ⟨hx, hy⟩
    exact ⟨_, _, hx, fun s' h => .intro h hy⟩
  cases h with
  | move hp =>
    obtain ⟨x, t, hx, hs⟩ := hpair hp
    exact ⟨x, t, hx, fun s' h => .move (hs s' h)⟩
  | line hp =>
    obtain ⟨x, t, hx, hs⟩ := hpair hp
    exact ⟨x, t, hx, fun s' h => .line (hs s' h)⟩
  | horizontal hx => exact ⟨_, _, hx, fun s' h => .horizontal h⟩
  | vertical hy => exact ⟨_, _, hy, fun s' h => .vertical h⟩
  | cubic ha hb hp =>
    obtain ⟨x, t, hx, hs⟩ := hpair ha
    exact ⟨x, t, hx, fun s' h => .cubic (hs s' h) hb hp⟩
  | smoothCubic hb hp =>
    obtain ⟨x, t, hx, hs⟩ := hpair hb
    exact ⟨x, t, hx, fun s' h => .smoothCubic (hs s' h) hp⟩
  | quad ha hp =>
    obtain ⟨x, t, hx, hs⟩ := hpair ha
    exact ⟨x, t, hx, fun s' h => .quad (hs s' h) hp⟩
  | smoothQuad hp =>
    obtain ⟨x, t, hx, hs⟩ := hpair hp
    exact ⟨x, t, hx, fun s' h => .smoothQuad (hs s' h)⟩
  | arc hshape hp =>
    obtain ⟨hradii, hrotation, hlarge, hsweep⟩ := hshape
    obtain ⟨x, t, hx, hs⟩ := hpair hradii
    exact ⟨x, t, hx, fun s' h => .arc (.intro (hs s' h) hrotation hlarge hsweep) hp⟩
  | close => exact absurd rfl hkind

/-- No group begins with an exponent letter. -/
theorem groups_start {previous : Option CommandLetter} {s : List Char} {cs : List Command}
    (h : Groups previous s cs) : Unexponented s := by
  induction h with
  | done hgap => exact unexponented_separators hgap
  | @lettered _ gap s r l c cs hgap hc hrest ih => exact unexponented_gap hgap (toChar_bounds l).2.2 s
  | continued hc hrest ih => exact (operands_recognizes _).starts hc ih

/-- **All groups are read.** -/
theorem groups_complete {r : Reader} (h : r.WellFormed) (hs : r.started = true) {cs : List Command}
    (hgroups : Groups r.continued r.rest cs) : r.readAll h = ⟨cs, none⟩ := by
  generalize hprevious : r.continued = previous at hgroups
  generalize hrest : r.rest = s at hgroups
  induction hgroups generalizing r with
  | done hgap =>
    refine Reader.readAll_none (Reader.command_none.2 ?_)
    rw [hrest]
    exact List.dropWhile_eq_nil_iff.2 hgap
  | @lettered _ gap s t l c cs hgap hc hgroups ih =>
    have hread : r.command = .ok (some (c, Reader.afterCommand l t)) := by
      refine Reader.command_some_iff.2 ⟨l, s, t, Reader.letter_iff.2 ⟨.inl hs, .inl ?_⟩, ?_, rfl⟩
      · rw [hrest, skipSeparators_gap hgap (toChar_bounds l).2.1]
      · exact (operands_recognizes l).complete hc (groups_start hgroups)
    rw [Reader.readAll_some hread, ih _ rfl rfl rfl]
  | @continued s t l c cs hc hgroups ih =>
    obtain ⟨x, u, hx, hfirst⟩ := operands_first (h l hprevious) hc
    obtain ⟨hskip, y, v, htext, hy⟩ := number_skipped hx
    have hplain := numeralStart_plain hy
    have hread : r.command = .ok (some (c, Reader.afterCommand l t)) := by
      refine Reader.command_some_iff.2 ⟨l, skipSeparators s, t,
        Reader.letter_iff.2 ⟨.inl hs, .inr ⟨hprevious, ?_, y, v, ?_, ?_⟩⟩, ?_, rfl⟩
      · rw [hrest]
      · rw [hrest, htext]
      · exact ⟨hplain.2.2.2, hplain.2.1⟩
      · exact (operands_recognizes l).complete (hfirst _ hskip) (groups_start hgroups)
    rw [Reader.readAll_some hread, ih _ rfl rfl rfl]

/-- **What is read are groups.** -/
theorem groups_sound (r : Reader) (h : r.WellFormed) (hs : r.started = true)
    (hread : (r.readAll h).fault = none) : Groups r.continued r.rest (r.readAll h).commands := by
  -- the recursion of the reader itself: the end, a fault, and one more command
  fun_induction Reader.readAll r h with
  | case1 => cases hread
  | case2 r h hc => exact .done (List.dropWhile_eq_nil_iff.1 (Reader.command_none.1 hc))
  | case3 r h c s hc p ih =>
    obtain ⟨l, t, u, hl, hoperands, rfl⟩ := Reader.command_some_iff.1 hc
    obtain ⟨gap, hgap, hrest⟩ := skipSeparators_eq r.rest
    have hafter : Groups l.continued? u p.commands := ih rfl hread
    have hrule := (operands_recognizes l).sound hoperands
    rcases Reader.letter_iff.1 hl with ⟨-, heq | ⟨hcont, rfl, -⟩⟩
    · rw [hrest, heq]
      exact .lettered hgap hrule hafter
    · obtain ⟨x, t, hx, hfirst⟩ := operands_first (h l hcont) hrule
      rw [hcont, hrest]
      exact .continued (hfirst _ (number_gap hgap hx)) hafter

/-! ## §5. Path data. -/

/-- A text is read without a fault if and only if the grammar derives it. -/
theorem parseChars_iff {s : List Char} {cs : List Command} :
    parseChars s = ⟨cs, none⟩ ↔ PathData s cs := by
  constructor
  · intro h
    unfold parseChars at h
    match hc : (Reader.ofChars s).command with
    | .error f =>
      rw [Reader.readAll_error hc] at h
      cases h
    | .ok none =>
      rw [Reader.readAll_none hc] at h
      cases h
      exact .empty (List.dropWhile_eq_nil_iff.1 (Reader.command_none.1 hc))
    | .ok (some (c, r)) =>
      rw [Reader.readAll_some hc] at h
      obtain ⟨rfl, hfault⟩ := Parsed.mk.inj h
      obtain ⟨l, t, u, hl, hoperands, rfl⟩ := Reader.command_some_iff.1 hc
      have hafter := groups_sound _ (Reader.wellFormed_afterCommand l u) rfl hfault
      have hrule := (operands_recognizes l).sound hoperands
      -- nothing was read before, so the first letter is a move which is written
      obtain ⟨hmove, hletter⟩ := Reader.letter_iff.1 hl
      obtain ⟨gap, hgap, hs⟩ := skipSeparators_eq s
      obtain ⟨kind, f⟩ := l
      obtain rfl : kind = .move := by simpa [Reader.ofChars] using hmove
      rcases hletter with heq | ⟨hcont, -⟩
      · have hstart : ∀ rest, Groups (some ⟨.line, f⟩) u rest → PathData s (c :: rest) := by
          intro rest hrest
          rw [hs, show skipSeparators s = _ from heq]
          cases hrule with
          | move hp => exact .starting hgap hp hrest
        exact hstart _ hafter
      · cases hcont
  · intro h
    cases h with
    | empty hgap =>
      exact Reader.readAll_none (Reader.command_none.2 (List.dropWhile_eq_nil_iff.2 hgap))
    | @starting gap s r f p cs hgap hp hgroups =>
      have hl := toChar_bounds ⟨.move, f⟩
      have hread : (Reader.ofChars (gap ++ (CommandLetter.mk .move f).toChar :: s)).command =
          .ok (some (.moveTo f p, Reader.afterCommand ⟨.move, f⟩ r)) := by
        refine Reader.command_some_iff.2 ⟨⟨.move, f⟩, s, r,
          Reader.letter_iff.2 ⟨.inr rfl, .inl ?_⟩, ?_, rfl⟩
        · exact skipSeparators_gap hgap hl.2.1 s
        · exact (operands_recognizes ⟨.move, f⟩).complete (.move hp) (groups_start hgroups)
      unfold parseChars
      rw [Reader.readAll_some hread, groups_complete _ rfl hgroups]

/-- **The parser accepts exactly its grammar**, and reads what the grammar
    derives; every other text is refused. -/
theorem parse_grammar (d : String) :
    (∀ cs, parse d = .ok cs ↔ PathData d.toList cs) ∧
      ((∃ e, parse d = .error e) ↔ ¬∃ cs, PathData d.toList cs) := by
  have hok : ∀ cs, parse d = .ok cs ↔ PathData d.toList cs := by
    intro cs
    rw [← parseChars_iff]
    unfold parse
    cases hparsed : parseChars d.toList with
    | mk commands fault => cases fault <;> simp [hparsed]
  refine ⟨hok, ?_⟩
  cases h : parse d with
  | ok cs => exact iff_of_false (by simp) (not_not.2 ⟨cs, (hok cs).1 h⟩)
  | error e => simp [← hok, h]

end Path

end VectorIcon

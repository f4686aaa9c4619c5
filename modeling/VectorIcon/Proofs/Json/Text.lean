/-
  VectorIcon.Proofs.Json.Text
  ────────────────────────────────
  **WHAT IS WRITTEN IS READ AS THE SAME VALUE.**

  `Writes t v` says that a text is cut into the tokens of a value, whatever may
  stand behind it; what stands behind a value begins with a comma, a colon or a
  closing bracket.  Numbers, strings, arrays and objects which are written this
  way are read as values again:

      string_writes   — every character, escaped or not, is read as itself
      number_writes   — a number ends where its text ends
      array_writes, object_writes
                      — parts between commas
      parse_written   — the whole text is the source of the value
-/
import Mathlib.Data.List.Forall2
import VectorIcon.Json.Text
import VectorIcon.Proofs.Json.Assembly
import VectorIcon.Proofs.Number.Numeral

namespace VectorIcon

namespace Json

open Decimal (AllDigits)

/-! ## §1. Tokens in a row. -/

theorem tokens_nil : tokens [] = [] := by
  rw [tokens]
  rfl

theorem tokens_cons {c : Char} (h : isSpace c = false) (s : List Char) :
    tokens (c :: s) = (tokenAt c s).1 :: tokens (tokenAt c s).2 := by
  have hdrop : (c :: s).dropWhile isSpace = c :: s := by
    rw [List.dropWhile_cons, h]
    rfl
  rw [tokens]
  split
  · next hnil =>
    rw [hdrop] at hnil
    cases hnil
  · next hcons =>
    rw [hdrop] at hcons
    cases hcons
    rfl

/-- What may stand behind a value. -/
def Ends (rest : List Char) : Prop :=
  ∀ c ∈ rest.head?, c = ',' ∨ c = ':' ∨ c = ']' ∨ c = '\x7d'

theorem ends_nil : Ends [] := fun _ h => nomatch h

theorem ends_cons {c : Char} (h : c = ',' ∨ c = ':' ∨ c = ']' ∨ c = '\x7d') (s : List Char) :
    Ends (c :: s) := by
  intro d hd
  cases hd
  exact h

/-- The text is cut into these tokens, whatever may stand behind it. -/
def Lexes (t : List Char) (ts : List Token) : Prop :=
  ∀ rest, Ends rest → tokens (t ++ rest) = ts ++ tokens rest

/-- The text of a value. -/
def Writes (t : List Char) (v : Value) : Prop := Lexes t v.tokens

/-! ## §2. Strings. -/

/-- The code unit which a control character is escaped with. -/
theorem unitOf?_control {n : Nat} (h : n < 0x20) :
    unitOf? '0' '0' (Nat.digitChar (n / 16)) (Nat.digitChar (n % 16)) = some n := by
  have hall : ∀ n < 0x20,
      unitOf? '0' '0' (Nat.digitChar (n / 16)) (Nat.digitChar (n % 16)) = some n := by decide
  exact hall n h

/-- A character which stands for itself. -/
theorem string_plain (st : StringState) {c : Char} (hquote : c ≠ '"') (hback : c ≠ '\\')
    (hcontrol : ¬ c.toNat < 0x20) (s : List Char) : string st (c :: s) = string (st.push c) s := by
  rw [string.eq_def]
  split
  · next h => cases h
  · next h => cases h; exact absurd rfl hquote
  · next h => cases h; exact absurd rfl hback
  · next h => cases h; exact absurd rfl hback
  · next h => cases h; exact absurd rfl hback
  · next h => cases h; exact absurd rfl hback
  · next h =>
    cases h
    exact if_neg hcontrol

/-- **A character is read from its text**, escaped or not. -/
theorem string_charText (cs : List Char) (c : Char) (s : List Char) :
    string (.good cs) (charText c ++ s) = string (.good (c :: cs)) s := by
  unfold charText
  split
  · rfl
  · rfl
  · rfl
  · rfl
  · rfl
  · rfl
  · rfl
  · next hquote hback _ _ _ _ _ =>
    by_cases hcontrol : c.toNat < 0x20
    · have hpush : StringState.pushUnit c.toNat (.good cs) = .good (c :: cs) := by
        show (if _ then _ else if _ then _ else StringState.good (Char.ofNat c.toNat :: cs)) = _
        rw [if_neg (by omega), if_neg (by omega), Char.ofNat_toNat]
      rw [if_pos hcontrol]
      show string (.good cs) ('\\' :: 'u' :: '0' :: '0' :: Nat.digitChar (c.toNat / 16) ::
        Nat.digitChar (c.toNat % 16) :: s) = _
      rw [string, unitOf?_control hcontrol, ← hpush]
    · rw [if_neg hcontrol]
      exact string_plain _ hquote hback hcontrol s

/-- The rest of a string, with the characters which are there latest first. -/
theorem string_chars (cs s rest : List Char) :
    string (.good cs) (s.flatMap charText ++ '"' :: rest) = (.string (.ok (cs.reverse ++ s)), rest) := by
  induction s generalizing cs with
  | nil =>
    rw [List.append_nil]
    rfl
  | cons c s ih =>
    rw [List.flatMap_cons, List.append_assoc, string_charText, ih, List.reverse_cons,
      List.append_assoc]
    rfl

/-- **A string is read from its text**, whatever stands behind it. -/
theorem tokens_stringText (s rest : List Char) :
    tokens (stringText s ++ rest) = .string (.ok s) :: tokens rest := by
  have htext : stringText s ++ rest = '"' :: (s.flatMap charText ++ '"' :: rest) := by
    unfold stringText
    rw [List.cons_append, List.append_assoc]
    rfl
  have htoken : tokenAt '"' (s.flatMap charText ++ '"' :: rest) = (.string (.ok s), rest) :=
    string_chars [] s rest
  rw [htext, tokens_cons (by decide), htoken]

theorem string_writes (s : List Char) : Writes (stringText s) (.string s) :=
  fun rest _ => tokens_stringText s rest

theorem bool_writes (b : Bool) : Writes (boolText b) (.bool b) := by
  intro rest _
  cases b with
  | true => exact tokens_cons (by decide) _
  | false => exact tokens_cons (by decide) _

/-! ## §3. Numbers. -/

namespace NumberText

/-- The text of a fraction. -/
def fractionChars : Option (List Char) → List Char
  | none => []
  | some ds => '.' :: ds

/-- The text of an exponent, with its sign. -/
def exponentChars : Option (Bool × List Char) → List Char
  | none => []
  | some (negative, ds) => 'e' :: (if negative then '-' else '+') :: ds

/-- The text of a number. -/
def chars (t : NumberText) : List Char :=
  (if t.negative then ['-'] else []) ++
    (t.whole ++ (fractionChars t.fraction ++ exponentChars t.exponent))

/-- Digits in all parts which are there, and no zero in front of others. -/
structure WellFormed (t : NumberText) : Prop where
  whole : AllDigits t.whole ∧ t.whole ≠ []
  leading : ∀ ds, t.whole = '0' :: ds → ds = []
  fraction : ∀ ds ∈ t.fraction, AllDigits ds ∧ ds ≠ []
  exponent : ∀ e ∈ t.exponent, AllDigits e.2 ∧ e.2 ≠ []

end NumberText

/-- What may stand behind a value does not go on with a number. -/
theorem Ends.not_number {rest : List Char} (h : Ends rest) :
    ∀ c ∈ rest.head?, Decimal.isDigit c = false ∧ c ≠ '.' ∧ c ≠ 'e' ∧ c ≠ 'E' := by
  intro c hc
  rcases h c hc with rfl | rfl | rfl | rfl <;> decide

theorem exponentDigits_chars (t : NumberText) (negative : Bool) {ds rest : List Char}
    (hds : AllDigits ds) (hne : ds ≠ []) (hrest : Ends rest) :
    exponentDigits t negative (ds ++ rest) =
      numberToken { t with exponent := some (negative, ds) } rest := by
  have hsplit := Decimal.splitDigits_append hds fun c hc => by
    rw [(hrest.not_number c hc).1]
    exact Bool.false_ne_true
  unfold exponentDigits
  rw [hsplit]
  simp only
  rw [if_neg (by rwa [List.isEmpty_iff])]

theorem exponentPart_chars (t : NumberText) (ht : t.exponent = none)
    {e : Option (Bool × List Char)} {rest : List Char}
    (he : ∀ x ∈ e, AllDigits x.2 ∧ x.2 ≠ []) (hrest : Ends rest) :
    exponentPart t (NumberText.exponentChars e ++ rest) = numberToken { t with exponent := e } rest := by
  cases e with
  | none =>
    have hsame : { t with exponent := none } = t := by rw [← ht]
    rw [hsame]
    unfold exponentPart
    rw [show NumberText.exponentChars none ++ rest = rest from rfl]
    split
    · next c r =>
      obtain ⟨-, -, he, hE⟩ := hrest.not_number c rfl
      exact if_neg (by simp [he, hE])
    · rfl
  | some x =>
    obtain ⟨negative, ds⟩ := x
    obtain ⟨hds, hne⟩ := he _ rfl
    cases negative with
    | false => exact exponentDigits_chars t false hds hne hrest
    | true => exact exponentDigits_chars t true hds hne hrest

/-- An exponent does not begin like a fraction or a digit. -/
theorem exponentChars_head {e : Option (Bool × List Char)} {rest : List Char} (hrest : Ends rest) :
    ∀ c ∈ (NumberText.exponentChars e ++ rest).head?, Decimal.isDigit c = false ∧ c ≠ '.' := by
  intro c hc
  cases e with
  | none =>
    obtain ⟨hdigit, hpoint, -⟩ := hrest.not_number c hc
    exact ⟨hdigit, hpoint⟩
  | some x =>
    cases hc
    decide

theorem fractionPart_chars (t : NumberText) (ht : t.fraction = none ∧ t.exponent = none)
    {f : Option (List Char)} {e : Option (Bool × List Char)} {rest : List Char}
    (hf : ∀ ds ∈ f, AllDigits ds ∧ ds ≠ []) (he : ∀ x ∈ e, AllDigits x.2 ∧ x.2 ≠ [])
    (hrest : Ends rest) :
    fractionPart t (NumberText.fractionChars f ++ (NumberText.exponentChars e ++ rest)) =
      numberToken { t with fraction := f, exponent := e } rest := by
  have hhead := exponentChars_head (e := e) hrest
  cases f with
  | none =>
    have hsame : { t with fraction := none, exponent := e } = { t with exponent := e } := by
      rw [← ht.1]
    rw [hsame, ← exponentPart_chars t ht.2 he hrest]
    show fractionPart t (NumberText.exponentChars e ++ rest) = _
    unfold fractionPart
    split
    · next r h =>
      rw [h] at hhead
      exact absurd rfl (hhead '.' rfl).2
    · rfl
  | some ds =>
    obtain ⟨hds, hne⟩ := hf ds rfl
    have hsplit := Decimal.splitDigits_append hds fun c hc => by
      rw [(hhead c hc).1]
      exact Bool.false_ne_true
    show fractionPart t ('.' :: (ds ++ (NumberText.exponentChars e ++ rest))) = _
    unfold fractionPart
    simp only
    rw [hsplit]
    simp only
    rw [if_neg (by rwa [List.isEmpty_iff])]
    exact exponentPart_chars { t with fraction := some ds } ht.2 he hrest

/-- The magnitude of a number is read from its text. -/
theorem number_chars {t : NumberText} (h : t.WellFormed) {rest : List Char} (hrest : Ends rest) :
    number t.negative (t.whole ++ (NumberText.fractionChars t.fraction ++
      (NumberText.exponentChars t.exponent ++ rest))) = numberToken t rest := by
  have hsplit := Decimal.splitDigits_append h.whole.1
    (r := NumberText.fractionChars t.fraction ++ (NumberText.exponentChars t.exponent ++ rest)) (by
      intro c hc
      cases hfraction : t.fraction with
      | none =>
        rw [hfraction] at hc
        rw [(exponentChars_head hrest c hc).1]
        exact Bool.false_ne_true
      | some ds =>
        rw [hfraction] at hc
        cases hc
        decide)
  unfold number
  rw [hsplit]
  simp only
  split
  · next hnil => exact absurd hnil h.whole.2
  · next hzero => exact nomatch h.leading _ hzero
  · exact fractionPart_chars ⟨t.negative, t.whole, none, none⟩ ⟨rfl, rfl⟩ h.fraction h.exponent hrest

/-- A digit begins a number. -/
theorem tokenAt_digit {c : Char} (h : Decimal.isDigit c = true) (s : List Char) :
    isSpace c = false ∧ tokenAt c s = number false (c :: s) := by
  constructor
  · unfold isSpace
    simp only [Bool.or_eq_false_iff, decide_eq_false_iff_not]
    refine ⟨⟨⟨?_, ?_⟩, ?_⟩, ?_⟩ <;> (rintro rfl; exact absurd h (by decide))
  · unfold tokenAt
    split <;> first
      | exact absurd h (by decide)
      | exact if_pos h

/-- **A number ends where its text ends.** -/
theorem tokens_chars {t : NumberText} (h : t.WellFormed) {rest : List Char} (hrest : Ends rest) :
    tokens (t.chars ++ rest) = .number (Number.ofText t) :: tokens rest := by
  have hnumber := number_chars h hrest
  unfold NumberText.chars
  rw [List.append_assoc, List.append_assoc, List.append_assoc]
  cases hsign : t.negative with
  | true =>
    rw [hsign] at hnumber
    show tokens ('-' :: (t.whole ++ _)) = _
    rw [tokens_cons (by decide)]
    show (number true _).1 :: tokens (number true _).2 = _
    rw [hnumber]
    rfl
  | false =>
    rw [hsign] at hnumber
    show tokens (t.whole ++ _) = _
    obtain ⟨d, ds, hwhole⟩ := List.exists_cons_of_ne_nil h.whole.2
    have hdigit : Decimal.isDigit d = true := h.whole.1 d (by rw [hwhole]; exact List.mem_cons_self)
    rw [hwhole, List.cons_append] at hnumber ⊢
    obtain ⟨hspace, htoken⟩ := tokenAt_digit hdigit
      (ds ++ (NumberText.fractionChars t.fraction ++ (NumberText.exponentChars t.exponent ++ rest)))
    rw [tokens_cons hspace, htoken, hnumber]
    rfl

theorem number_writes {t : NumberText} (h : t.WellFormed) {n : Number}
    (hn : Number.ofText t = .ok n) : Writes t.chars (.number n) := by
  intro rest hrest
  rw [tokens_chars h hrest, hn]
  rfl

/-! ## §4. Arrays and objects. -/

/-- Rows of tokens with commas between them. -/
def joinTokens : List (List Token) → List Token
  | [] => []
  | ts :: tss => ts ++ tss.flatMap (.comma :: ·)

theorem joinTexts_cons (t : List Char) (ts : List (List Char)) :
    joinTexts (t :: ts) = t ++ ts.flatMap (',' :: ·) := by
  induction ts generalizing t with
  | nil => exact (List.append_nil t).symm
  | cons u ts ih =>
    rw [joinTexts, ih u, List.flatMap_cons]
    · rfl
    · exact List.cons_ne_nil u ts

/-- The parts after the first one, before something which is no part. -/
theorem tokens_later {ts : List (List Char)} {tss : List (List Token)}
    (h : List.Forall₂ Lexes ts tss) {rest : List Char} (hrest : Ends rest) :
    tokens (ts.flatMap (',' :: ·) ++ rest) = tss.flatMap (.comma :: ·) ++ tokens rest ∧
      Ends (ts.flatMap (',' :: ·) ++ rest) := by
  induction h with
  | nil => exact ⟨rfl, hrest⟩
  | @cons t us ts uss ht hts ih =>
    rw [List.flatMap_cons, List.flatMap_cons, List.append_assoc, List.append_assoc]
    refine ⟨?_, ends_cons (.inl rfl) _⟩
    show tokens (',' :: (t ++ _)) = .comma :: (us ++ _)
    rw [tokens_cons (by decide), ← ih.1, ← ht _ ih.2]
    rfl

/-- **Parts with commas between them** are cut into their tokens. -/
theorem tokens_joinTexts {ts : List (List Char)} {tss : List (List Token)}
    (h : List.Forall₂ Lexes ts tss) {rest : List Char} (hrest : Ends rest) :
    tokens (joinTexts ts ++ rest) = joinTokens tss ++ tokens rest := by
  cases h with
  | nil => rfl
  | @cons t us ts uss ht hts =>
    obtain ⟨hlater, hends⟩ := tokens_later hts hrest
    rw [joinTexts_cons, joinTokens, List.append_assoc, List.append_assoc, ht _ hends, hlater]

namespace Value

theorem laterItems_eq (vs : List Value) :
    laterItems vs = (vs.map tokens).flatMap (.comma :: ·) ++ [.rightBracket] := by
  induction vs with
  | nil => rfl
  | cons v vs ih =>
    rw [laterItems, ih, List.map_cons, List.flatMap_cons, List.append_assoc]
    rfl

theorem tokens_array (vs : List Value) :
    tokens (.array vs) = .leftBracket :: (joinTokens (vs.map tokens) ++ [.rightBracket]) := by
  cases vs with
  | nil => rfl
  | cons v vs =>
    rw [tokens, laterItems_eq, List.map_cons, joinTokens, List.append_assoc]

/-- The tokens of a member. -/
def memberTokens (m : List Char × Value) : List Token := .string (.ok m.1) :: .colon :: m.2.tokens

theorem laterMembers_eq (ms : List (List Char × Value)) :
    laterMembers ms = (ms.map memberTokens).flatMap (.comma :: ·) ++ [.rightBrace] := by
  induction ms with
  | nil => rfl
  | cons m ms ih =>
    rw [laterMembers, ih, List.map_cons, List.flatMap_cons, List.append_assoc]
    rfl

theorem tokens_object (ms : List (List Char × Value)) :
    tokens (.object ms) = .leftBrace :: (joinTokens (ms.map memberTokens) ++ [.rightBrace]) := by
  cases ms with
  | nil => rfl
  | cons m ms =>
    rw [tokens, laterMembers_eq, List.map_cons, joinTokens, List.append_assoc]
    rfl

end Value

/-- **An array is read from its text** if its items are. -/
theorem array_writes {ts : List (List Char)} {vs : List Value} (h : List.Forall₂ Writes ts vs) :
    Writes (arrayText ts) (.array vs) := by
  intro rest _
  have hparts : List.Forall₂ Lexes ts (vs.map Value.tokens) := by
    rw [List.forall₂_map_right_iff]
    exact h
  have hclose : Ends (']' :: rest) := ends_cons (.inr (.inr (.inl rfl))) rest
  have htext : arrayText ts ++ rest = '[' :: (joinTexts ts ++ ']' :: rest) := by
    unfold arrayText
    rw [List.cons_append, List.append_assoc]
    rfl
  rw [htext, tokens_cons (by decide), Value.tokens_array]
  show .leftBracket :: tokens (joinTexts ts ++ ']' :: rest) = _
  rw [tokens_joinTexts hparts hclose, tokens_cons (by decide), List.cons_append, List.append_assoc]
  rfl

/-- The text of a member writes the name and the value. -/
structure WritesMember (t : String × List Char) (m : List Char × Value) : Prop where
  name : m.1 = t.1.toList
  value : Writes t.2 m.2

theorem WritesMember.lexes {t : String × List Char} {m : List Char × Value} (h : WritesMember t m) :
    Lexes (memberText t) (Value.memberTokens m) := by
  intro rest hrest
  have hcolon : tokens (':' :: (t.2 ++ rest)) = .colon :: (m.2.tokens ++ tokens rest) := by
    rw [tokens_cons (by decide), ← h.value rest hrest]
    rfl
  unfold memberText Value.memberTokens
  rw [List.append_assoc, tokens_stringText, List.cons_append, hcolon, h.name]
  rfl

/-- **An object is read from its text** if the values of its members are. -/
theorem object_writes {ts : List (String × List Char)} {ms : List (List Char × Value)}
    (h : List.Forall₂ WritesMember ts ms) : Writes (objectText ts) (.object ms) := by
  intro rest _
  have hparts : List.Forall₂ Lexes (ts.map memberText) (ms.map Value.memberTokens) := by
    rw [List.forall₂_map_left_iff, List.forall₂_map_right_iff]
    exact h.imp fun _ _ hm => hm.lexes
  have hclose : Ends ('\x7d' :: rest) := ends_cons (.inr (.inr (.inr rfl))) rest
  have htext : objectText ts ++ rest = '\x7b' :: (joinTexts (ts.map memberText) ++ '\x7d' :: rest) := by
    unfold objectText
    rw [List.cons_append, List.append_assoc]
    rfl
  rw [htext, tokens_cons (by decide), Value.tokens_object]
  show .leftBrace :: tokens (joinTexts (ts.map memberText) ++ '\x7d' :: rest) = _
  rw [tokens_joinTexts hparts hclose, tokens_cons (by decide), List.cons_append, List.append_assoc]
  rfl

/-! ## §5. Whole texts. -/

/-- **The text of a value is the source of the value**, and nothing follows it. -/
theorem parse_written {t : List Char} {v : Value} (h : Writes t v) : parse t = ⟨v.source, false⟩ := by
  have htokens : tokens t = v.tokens ++ [] := by
    have hall := h [] ends_nil
    rwa [List.append_nil, tokens_nil] at hall
  unfold parse
  rw [htokens, assemble_tokens v (.inl rfl)]
  rfl

theorem decode_written {α : Type} {f : Source → Except Fault α} {t : List Char} {v : Value} {a : α}
    (h : Writes t v) (hf : f v.source = .ok a) : decode f t = .ok a := by
  unfold decode
  rw [parse_written h]
  show (f v.source >>= fun a => _) = _
  rw [hf]
  rfl

end Json

end VectorIcon

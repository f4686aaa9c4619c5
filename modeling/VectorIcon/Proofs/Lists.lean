/-
  VectorIcon.Proofs.Lists
  ────────────────────────────────
  **LISTS AND RESULTS.**

  What the theory of lists is asked for here and does not have: lists of results
  (`List.mapM_ok_iff`, `List.mapM_error_iff`), relations of lists item by item
  (`List.forall₂_trans`), and where a list can be cut.
-/
import Mathlib.Data.List.Forall2
import Mathlib.Data.List.TakeWhile

/-! ## §1. Results. -/

namespace Except

variable {ε ε' α β : Type}

/-- A sequence of two readings succeeds exactly if both do. -/
theorem bind_eq_ok {x : Except ε α} {f : α → Except ε β} {b : β} :
    x >>= f = .ok b ↔ ∃ a, x = .ok a ∧ f a = .ok b := by
  cases x with
  | error e =>
    constructor
    · intro h
      cases h
    · rintro ⟨a, ha, -⟩
      cases ha
  | ok a =>
    refine ⟨fun h => ⟨a, rfl, h⟩, ?_⟩
    rintro ⟨a', ha, hb⟩
    cases ha
    exact hb

theorem mapError_eq_ok {x : Except ε α} {f : ε → ε'} {a : α} : x.mapError f = .ok a ↔ x = .ok a := by
  cases x with
  | error e => exact iff_of_false nofun nofun
  | ok b => rw [Except.mapError, ok.injEq, ok.injEq]

/-- Whether there is a result can be computed. -/
theorem exists_ok {x : Except ε α} (h : x.toOption.isSome = true) : ∃ a, x = .ok a := by
  cases x with
  | ok a => exact ⟨a, rfl⟩
  | error => cases h

end Except

namespace List

/-! ## §2. Item by item. -/

section

variable {α β γ : Type}

/-- Relations of lists one after the other. -/
theorem forall₂_trans {R : α → β → Prop} {S : β → γ → Prop} {U : α → γ → Prop}
    (h : ∀ {a b c}, R a b → S b c → U a c) {as : List α} {bs : List β} {cs : List γ}
    (hR : Forall₂ R as bs) (hS : Forall₂ S bs cs) : Forall₂ U as cs := by
  -- the induction is on the first relation; the second one follows its lists
  induction hR generalizing cs with
  | nil =>
    cases hS
    exact .nil
  | cons hab _ ih =>
    cases hS with
    | cons hbc hrest => exact .cons (h hab hbc) (ih hrest)

/-- What holds of the first components. -/
theorem forall_of_forall₂ {P : α → Prop} {as : List α} {bs : List β}
    (h : Forall₂ (fun a _ => P a) as bs) : ∀ a ∈ as, P a :=
  ((forall₂_and_left _ _).1 (h.imp fun _ _ ha => And.intro ha trivial)).1

end

/-! ## §3. Lists of results. -/

section

variable {ε α β : Type} {f : α → Except ε β} {as : List α} {bs : List β}

/-- A list has results exactly if each element has its own. -/
theorem mapM_ok_iff : as.mapM f = .ok bs ↔ Forall₂ (fun a b => f a = .ok b) as bs := by
  constructor
  · intro h
    induction as generalizing bs with
    | nil =>
      cases h
      exact .nil
    | cons a as ih =>
      rw [mapM_cons] at h
      obtain ⟨b, hb, h⟩ := Except.bind_eq_ok.1 h
      obtain ⟨bs', hbs, h⟩ := Except.bind_eq_ok.1 h
      cases h
      exact .cons hb (ih hbs)
  · intro h
    induction h with
    | nil => rfl
    | cons hb _ ih =>
      rw [mapM_cons, hb, ih]
      rfl

/-- What holds of every result holds of those of a list. -/
theorem forall_of_mapM {holds : β → Prop} (hf : ∀ a b, f a = .ok b → holds b)
    (h : as.mapM f = .ok bs) : ∀ b ∈ bs, holds b :=
  forall_of_forall₂ ((mapM_ok_iff.1 h).imp hf).flip

/-- If there are results for a list, there is one for every element. -/
theorem exists_of_mapM (h : as.mapM f = .ok bs) : ∀ a ∈ as, ∃ b, f a = .ok b :=
  forall_of_forall₂ ((mapM_ok_iff.1 h).imp fun _ b hb => ⟨b, hb⟩)

/-- **The error of a list is that of its first element which has one.** -/
theorem mapM_error_iff {e : ε} :
    as.mapM f = .error e ↔ ∃ before a after, as = before ++ a :: after ∧
      (∀ a' ∈ before, ∃ b, f a' = .ok b) ∧ f a = .error e := by
  constructor
  · intro h
    induction as with
    | nil => cases h
    | cons a as ih =>
      rw [mapM_cons] at h
      cases ha : f a with
      | error e' =>
        rw [ha] at h
        cases h
        exact ⟨[], a, as, rfl, (fun _ hmem => by cases hmem), ha⟩
      | ok b =>
        rw [ha] at h
        cases has : as.mapM f with
        | ok bs =>
          rw [has] at h
          cases h
        | error e' =>
          rw [has] at h
          cases h
          obtain ⟨before, a', after, hsplit, hbefore, ha'⟩ := ih has
          refine ⟨a :: before, a', after, congrArg (a :: ·) hsplit, fun c hc => ?_, ha'⟩
          rcases mem_cons.1 hc with rfl | hc
          · exact ⟨b, ha⟩
          · exact hbefore c hc
  · rintro ⟨before, a, after, rfl, hbefore, ha⟩
    induction before with
    | nil =>
      rw [nil_append, mapM_cons, ha]
      rfl
    | cons a' before ih =>
      obtain ⟨b, hb⟩ := hbefore a' mem_cons_self
      rw [cons_append, mapM_cons, hb, ih fun c hc => hbefore c (mem_cons_of_mem a' hc)]
      rfl

/-- A list of values which are read one by one. -/
theorem mapM_map_ok {f : β → Except ε α} {g : α → β} (h : ∀ a ∈ as, f (g a) = .ok a) :
    (as.map g).mapM f = .ok as := by
  rw [mapM_ok_iff, forall₂_map_left_iff]
  exact forall₂_same.2 h

end

/-! ## §4. Where a list is cut. -/

section

variable {α : Type} {l : List α} {a : α}

/-- A beginning of two lists lies in the first one, or goes on into the second
    one. -/
theorem append_eq_append_cases {u u' v w : List α} (h : u ++ u' = v ++ w) :
    (∃ x, x ≠ [] ∧ u = v ++ x ∧ w = x ++ u') ∨ ∃ v', v = u ++ v' ∧ u' = v' ++ w := by
  rcases append_eq_append_iff.1 h with ⟨x, rfl, rfl⟩ | ⟨x, rfl, rfl⟩
  · exact .inr ⟨x, rfl, rfl⟩
  · cases x with
    | nil => exact .inr ⟨[], by rw [append_nil, append_nil], rfl⟩
    | cons b x => exact .inl ⟨b :: x, cons_ne_nil _ _, rfl, rfl⟩

/-- An event in a longer row is the last one, or one before it. -/
theorem exists_split_concat {P K : α → Prop} :
    (∃ earlier c later, l ++ [a] = earlier ++ c :: later ∧ P c ∧ ∀ d ∈ later, K d) ↔
      P a ∨ K a ∧ ∃ earlier c later, l = earlier ++ c :: later ∧ P c ∧ ∀ d ∈ later, K d := by
  constructor
  · rintro ⟨earlier, c, later, hsplit, hc, hall⟩
    rcases eq_nil_or_concat later with rfl | ⟨later, d, rfl⟩
    · obtain ⟨-, hlast⟩ := append_inj' hsplit rfl
      obtain rfl := singleton_inj.1 hlast
      exact .inl hc
    · rw [concat_eq_append, ← cons_append, ← append_assoc] at hsplit
      obtain ⟨rfl, hlast⟩ := append_inj' hsplit rfl
      obtain rfl := singleton_inj.1 hlast
      rw [concat_eq_append, forall_mem_append, forall_mem_singleton] at hall
      exact .inr ⟨hall.2, earlier, c, later, rfl, hc, hall.1⟩
  · rintro (ha | ⟨hlast, earlier, c, later, rfl, hc, hall⟩)
    · exact ⟨l, a, [], rfl, ha, nofun⟩
    · refine ⟨earlier, c, later ++ [a], ?_, hc, ?_⟩
      · rw [append_assoc, cons_append]
      · exact forall_mem_append.2 ⟨hall, forall_mem_singleton.2 hlast⟩

/-- A list begins with an item of some kind or it does not. -/
theorem head_cases (holds : α → Prop) (v : List α) :
    (∃ c r, v = c :: r ∧ holds c) ∨ ∀ c ∈ v.head?, ¬holds c := by
  cases v with
  | nil => exact .inr fun c hc => absurd hc (by simp)
  | cons c r =>
    by_cases h : holds c
    · exact .inl ⟨c, r, rfl, h⟩
    · exact .inr fun d hd => by cases hd; exact h

/-- What stands under one key does not count for the others. -/
theorem lookup_filter_ne {κ : Type} [BEq κ] [LawfulBEq κ] {key other : κ} (h : other ≠ key)
    (entries : List (κ × α)) :
    (entries.filter (·.1 != key)).lookup other = entries.lookup other := by
  induction entries with
  | nil => rfl
  | cons entry entries ih =>
    obtain ⟨k, value⟩ := entry
    by_cases hk : k = key
    · subst hk
      rw [filter_cons_of_neg (by simp), ih, lookup_cons, beq_false_of_ne h]
    · rw [filter_cons_of_pos (by simpa using hk), lookup_cons, lookup_cons, ih]

variable {p : α → Bool}

/-- Nothing is dropped from the front if nothing in the list could be. -/
theorem dropWhile_eq_self (h : ∀ c ∈ l, p c = false) : l.dropWhile p = l :=
  dropWhile_eq_self_iff.2 fun _ => by
    rw [h _ (getElem_mem _)]
    exact Bool.false_ne_true

/-- Cutting the list after the leading items of a class. -/
theorem span_append {s v t : List α} (h : s.dropWhile p = v ++ t) :
    s = s.takeWhile p ++ (v ++ t) ∧ (s.takeWhile p ++ v).takeWhile p = s.takeWhile p ∧
      (s.takeWhile p ++ v).dropWhile p = v := by
  have htake : ∀ c ∈ s.takeWhile p, p c = true := fun _ hc => mem_takeWhile_imp hc
  -- the first item which is left is outside of the class, also in the shorter list
  have hv : v = [] ∨ ∃ c w, v = c :: w ∧ ¬p c = true := by
    cases v with
    | nil => exact .inl rfl
    | cons c w =>
      refine .inr ⟨c, w, rfl, ?_⟩
      have hc := head_dropWhile_not p (l := s) (by rw [h]; exact cons_ne_nil _ _)
      simpa [h] using hc
  refine ⟨by rw [← h, takeWhile_append_dropWhile], ?_, ?_⟩
  · rw [takeWhile_append_of_pos htake]
    rcases hv with rfl | ⟨c, w, rfl, hc⟩
    · rw [takeWhile_nil, append_nil]
    · rw [takeWhile_cons_of_neg hc, append_nil]
  · rw [dropWhile_append_of_pos htake]
    rcases hv with rfl | ⟨c, w, rfl, hc⟩
    · rfl
    · rw [dropWhile_cons_of_neg hc]

end

end List

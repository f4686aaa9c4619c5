/-
  VectorIcon.Scan
  ────────────────────────────────
  **READING A LIST FROM THE FRONT.**

  Path data, markup, JSON text and icons are all read the same way: a `Scan`
  takes items off the front of what remains, or stops with an error.  There are
  no positions; the place of an error is told by what remained there.

  What makes repeated reading terminate is how a scan treats the length of what
  remains:

      Scan.Keeps p   — `p` leaves at most as much as it found
      Scan.Takes p   — `p` leaves strictly less

  A scan which takes can be repeated: `Scan.through` until a result is the last
  one, `Scan.toEnd` until nothing remains; `through_eq` and `toEnd_cons` unfold
  one round.
-/

namespace VectorIcon

/-- Takes items of type `σ` from the front of a list, may stop with an `ε`. -/
abbrev Scan (σ ε α : Type) := StateT (List σ) (Except ε) α

namespace Scan

variable {σ ε α β : Type}

/-! ## §1. Results of composed scans. -/

/-- Sequencing succeeds exactly if both parts do, the second on what the first
    leaves. -/
theorem bind_ok {p : Scan σ ε α} {f : α → Scan σ ε β} {s t : List σ} {b : β} :
    (p >>= f) s = .ok (b, t) ↔ ∃ a u, p s = .ok (a, u) ∧ f a u = .ok (b, t) := by
  show (p s >>= fun x => f x.1 x.2) = _ ↔ _
  match p s with
  | .error e => simp [bind, Except.bind]
  | .ok (a, u) =>
    refine ⟨fun h => ⟨a, u, rfl, h⟩, ?_⟩
    rintro ⟨a', u', h1, h2⟩
    cases h1
    exact h2

/-- Sequencing stops if the first part does, or the second one on what the first
    leaves. -/
theorem bind_error {p : Scan σ ε α} {f : α → Scan σ ε β} {s : List σ} {e : ε} :
    (p >>= f) s = .error e ↔ p s = .error e ∨ ∃ a t, p s = .ok (a, t) ∧ f a t = .error e := by
  show (p s >>= fun x => f x.1 x.2) = _ ↔ _
  match p s with
  | .error e => simp [bind, Except.bind]
  | .ok (a, t) =>
    refine ⟨fun h => .inr ⟨a, t, rfl, h⟩, ?_⟩
    rintro (h1 | ⟨a', t', h1, h2⟩)
    · cases h1
    · cases h1
      exact h2

theorem pure_ok {a b : α} {s t : List σ} :
    (pure a : Scan σ ε α) s = .ok (b, t) ↔ b = a ∧ t = s := by
  show Except.ok (a, s) = Except.ok (b, t) ↔ _
  rw [Except.ok.injEq, Prod.mk.injEq]
  exact ⟨fun h => ⟨h.1.symm, h.2.symm⟩, fun h => ⟨h.1.symm, h.2.symm⟩⟩

/-! ## §2. How much remains. -/

/-- What remains is never longer than before. -/
def Keeps (p : Scan σ ε α) : Prop := ∀ s a t, p s = .ok (a, t) → t.length ≤ s.length

/-- What remains is always shorter than before. -/
def Takes (p : Scan σ ε α) : Prop := ∀ s a t, p s = .ok (a, t) → t.length < s.length

/-- Splitting at the first item outside of a class loses nothing. -/
theorem length_takeWhile_add_dropWhile (p : σ → Bool) (s : List σ) :
    (s.takeWhile p).length + (s.dropWhile p).length = s.length := by
  rw [← List.length_append, List.takeWhile_append_dropWhile]

theorem Takes.keeps {p : Scan σ ε α} (h : Takes p) : Keeps p :=
  fun s a t e => Nat.le_of_lt (h s a t e)

theorem keeps_pure (a : α) : Keeps (pure a : Scan σ ε α) := by
  intro s b t h
  exact Nat.le_of_eq (by rw [(pure_ok.1 h).2])

theorem Keeps.bind {p : Scan σ ε α} {f : α → Scan σ ε β} (hp : Keeps p) (hf : ∀ a, Keeps (f a)) :
    Keeps (p >>= f) := by
  intro s b t h
  obtain ⟨a, u, h1, h2⟩ := bind_ok.1 h
  exact Nat.le_trans (hf a u b t h2) (hp s a u h1)

theorem Takes.bind {p : Scan σ ε α} {f : α → Scan σ ε β} (hp : Takes p) (hf : ∀ a, Keeps (f a)) :
    Takes (p >>= f) := by
  intro s b t h
  obtain ⟨a, u, h1, h2⟩ := bind_ok.1 h
  exact Nat.lt_of_le_of_lt (hf a u b t h2) (hp s a u h1)

theorem Keeps.bind_takes {p : Scan σ ε α} {f : α → Scan σ ε β} (hp : Keeps p)
    (hf : ∀ a, Takes (f a)) : Takes (p >>= f) := by
  intro s b t h
  obtain ⟨a, u, h1, h2⟩ := bind_ok.1 h
  exact Nat.lt_of_lt_of_le (hf a u b t h2) (hp s a u h1)

/-! ## §3. Repetition. -/

/-- The same scan a number of times. -/
def times (p : Scan σ ε α) : Nat → Scan σ ε (List α)
  | 0 => pure []
  | n + 1 => do
    let a ← p
    let as ← times p n
    return a :: as

/-- A scan again and again, up to and including the first result which is the
    last one. -/
def through (p : Scan σ ε α) (h : Takes p) (isLast : α → Bool) (s : List σ) :
    Except ε (List α × List σ) :=
  match _hs : p s with
  | .error e => .error e
  | .ok (a, t) =>
    if isLast a then .ok ([a], t)
    else match through p h isLast t with
      | .error e => .error e
      | .ok (as, u) => .ok (a :: as, u)
termination_by s.length
decreasing_by exact h s a t _hs

/-- A scan again and again until nothing remains. -/
def toEnd (p : Scan σ ε α) (h : Takes p) (s : List σ) : Except ε (List α) :=
  if s.isEmpty then .ok []
  else match _hs : p s with
    | .error e => .error e
    | .ok (a, t) =>
      match toEnd p h t with
      | .error e => .error e
      | .ok as => .ok (a :: as)
termination_by s.length
decreasing_by exact h s a t _hs

theorem keeps_times {p : Scan σ ε α} (h : Keeps p) (n : Nat) : Keeps (times p n) := by
  induction n with
  | zero => exact keeps_pure _
  | succ n ih => exact h.bind fun _ => ih.bind fun _ => keeps_pure _

/-- One round of `through`. -/
theorem through_eq (p : Scan σ ε α) (h : Takes p) (isLast : α → Bool) (s : List σ) :
    through p h isLast s =
      match p s with
      | .error e => .error e
      | .ok (a, t) =>
        if isLast a then .ok ([a], t)
        else match through p h isLast t with
          | .error e => .error e
          | .ok (as, u) => .ok (a :: as, u) := by
  rw [through]
  split <;> simp [*]

/-- One round of `toEnd` on what is not empty. -/
theorem toEnd_cons (p : Scan σ ε α) (h : Takes p) (x : σ) (s : List σ) :
    toEnd p h (x :: s) =
      match p (x :: s) with
      | .error e => .error e
      | .ok (a, t) =>
        match toEnd p h t with
        | .error e => .error e
        | .ok as => .ok (a :: as) := by
  rw [toEnd]
  simp only [List.isEmpty_cons, Bool.false_eq_true, ↓reduceIte]
  split <;> simp [*]

theorem toEnd_nil (p : Scan σ ε α) (h : Takes p) : toEnd p h [] = .ok [] := by
  rw [toEnd]
  rfl

/-- What `through` leaves is shorter. -/
theorem through_takes {p : Scan σ ε α} (h : Takes p) (isLast : α → Bool) :
    Takes (through p h isLast : Scan σ ε (List α)) := by
  intro s as t hr
  fun_induction through p h isLast s generalizing as t with
  | case1 => cases hr
  | case2 s a u hs hl => cases hr; exact h s a u hs
  | case3 => cases hr
  | case4 s a u hs hl as' v hv ih =>
    cases hr
    exact Nat.lt_trans (ih _ _ hv) (h s a u hs)

end Scan

end VectorIcon

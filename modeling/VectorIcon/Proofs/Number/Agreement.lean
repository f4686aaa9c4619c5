/-
  VectorIcon.Proofs.Number.Agreement
  ────────────────────────────────
  **NUMBERS WHICH NO OPERATION TELLS APART.**

  Two numbers agree if they compare equal or are both NaN: they are the same
  number, or the two zeros (`agrees_iff`).  Sums, differences and products of
  numbers that agree agree again, so agreement passes through every computation
  of the plotter.
-/
import VectorIcon.Geometry
import VectorIcon.Proofs.Number.Arithmetic

namespace VectorIcon

open Float.Model Float.Model.UnpackedFloat

/-! ## §1. Agreement. -/

/-- The numbers compare equal, or both are NaN. -/
def Scalar.Agrees (a b : Scalar) : Prop :=
  (a == b) = true ∨ Scalar.isNaN a = true ∧ Scalar.isNaN b = true

/-- The same unpacked number, or two zeros. -/
def Alike (u v : UnpackedFloat) : Prop := u = v ∨ ∃ s s', u = .zero s ∧ v = .zero s'

namespace Alike

theorem refl (u : UnpackedFloat) : Alike u u := .inl rfl

theorem symm {u v : UnpackedFloat} (h : Alike u v) : Alike v u := by
  rcases h with rfl | ⟨s, s', rfl, rfl⟩
  · exact refl _
  · exact .inr ⟨s', s, rfl, rfl⟩

theorem trans {u v w : UnpackedFloat} (h : Alike u v) (h' : Alike v w) : Alike u w := by
  rcases h with rfl | ⟨s, s', rfl, rfl⟩
  · exact h'
  · rcases h' with rfl | ⟨_, s'', -, rfl⟩
    · exact .inr ⟨s, s', rfl, rfl⟩
    · exact .inr ⟨s, s'', rfl, rfl⟩

theorem zeros (s s' : Sign) : Alike (.zero s) (.zero s') := .inr ⟨s, s', rfl, rfl⟩

theorem neg {u v : UnpackedFloat} (h : Alike u v) : Alike u.neg v.neg := by
  rcases h with rfl | ⟨s, s', rfl, rfl⟩
  · exact refl _
  · exact zeros (-s) (-s')

end Alike

/-- A number compares equal to itself unless it is NaN. -/
theorem compare_self {u : UnpackedFloat} (h : u ≠ .notANumber) :
    UnpackedFloat.compare u u = some .eq := by
  cases u with
  | notANumber => exact absurd rfl h
  | infinity s => cases s <;> rfl
  | zero s => rfl
  | finite s m e hm =>
    have hsame : (compare e e).then (compare m m) = .eq := by
      rw [compare_eq_iff_eq.2 rfl, compare_eq_iff_eq.2 rfl]
      rfl
    cases s with
    | negative => exact congrArg (fun o => some (Ordering.swap o)) hsame
    | positive => exact congrArg some hsame

/-- What compares equal is alike. -/
theorem alike_of_compare {u v : UnpackedFloat} (h : UnpackedFloat.compare u v = some .eq) :
    Alike u v := by
  -- exponents are compared first, mantissas only if these are equal
  have hparts {m m' : ℕ} {e e' : ℤ} (h : (compare e e').then (compare m m') = .eq) :
      e = e' ∧ m = m' := by
    rcases lt_trichotomy e e' with he | rfl | he
    · rw [compare_lt_iff_lt.2 he] at h
      cases h
    · rw [compare_eq_iff_eq.2 rfl] at h
      exact ⟨rfl, compare_eq_iff_eq.1 h⟩
    · rw [compare_gt_iff_gt.2 he] at h
      cases h
  cases u with
  | notANumber => cases h
  | infinity s =>
    cases v with
    | notANumber => cases s <;> cases h
    | infinity s' => cases s <;> cases s' <;> first | exact Alike.refl _ | cases h
    | zero s' => cases s <;> cases h
    | finite s' => cases s <;> cases h
  | zero s =>
    cases v with
    | notANumber => cases h
    | infinity s' => cases s' <;> cases h
    | zero s' => exact Alike.zeros s s'
    | finite s' => cases s' <;> cases h
  | finite s m e hm =>
    cases v with
    | notANumber => cases s <;> cases h
    | infinity s' => cases s <;> cases s' <;> cases h
    | zero s' => cases s <;> cases h
    | finite s' m' e' hm' =>
      cases s with
      | negative =>
        cases s' with
        | positive => cases h
        | negative =>
          have hswap : ((compare e e').then (compare m m')).swap = .eq := Option.some.inj h
          obtain ⟨rfl, rfl⟩ := hparts (Ordering.swap_eq_eq.1 hswap)
          exact Alike.refl _
      | positive =>
        cases s' with
        | negative => cases h
        | positive =>
          obtain ⟨rfl, rfl⟩ := hparts (Option.some.inj h)
          exact Alike.refl _

/-- **Numbers agree if they are the same number or two zeros.** -/
theorem Scalar.agrees_iff (a b : Scalar) : a.Agrees b ↔ Alike a.unpacked b.unpacked := by
  have hnan (x : Scalar) : Scalar.isNaN x = true ↔ x.unpacked = .notANumber := by
    rw [isNaN_eq]
    cases x.unpacked with
    | notANumber => exact ⟨fun _ => rfl, fun _ => rfl⟩
    | zero | infinity | finite =>
      constructor
      · intro h
        cases h
      · intro h
        cases h
  unfold Agrees
  rw [beq_iff_compare, hnan, hnan]
  constructor
  · rintro (h | ⟨ha, hb⟩)
    · exact alike_of_compare h
    · rw [ha, hb]
      exact Alike.refl _
  · rintro (h | ⟨s, s', ha, hb⟩)
    · by_cases hu : a.unpacked = .notANumber
      · exact .inr ⟨hu, h ▸ hu⟩
      · left
        rw [← h]
        exact compare_self hu
    · left
      rw [ha, hb]
      rfl

/-! ## §2. Operations. -/

section

variable {u u' v v' : UnpackedFloat}

theorem add_alike (hu : Alike u u') (hv : Alike v v') :
    Alike (UnpackedFloat.add .binary32 u v) (UnpackedFloat.add .binary32 u' v') := by
  -- whatever the signs, a sum of zeros is some zero
  have hzeros (s s' t t' : Sign) : Alike (UnpackedFloat.add .binary32 (.zero s) (.zero t))
      (UnpackedFloat.add .binary32 (.zero s') (.zero t')) := by
    show Alike (if s == t then .zero s else .zero .positive) (if s' == t' then .zero s' else .zero .positive)
    split <;> split <;> exact Alike.zeros _ _
  rcases hu with rfl | ⟨s, s', rfl, rfl⟩
  · rcases hv with rfl | ⟨t, t', rfl, rfl⟩
    · exact Alike.refl _
    · cases u with
      | zero s => exact hzeros s s t t'
      | notANumber | infinity | finite => exact Alike.refl _
  · rcases hv with rfl | ⟨t, t', rfl, rfl⟩
    · cases v with
      | zero t => exact hzeros s s' t t
      | notANumber | infinity | finite => exact Alike.refl _
    · exact hzeros s s' t t'

theorem mul_alike (hu : Alike u u') (hv : Alike v v') :
    Alike (UnpackedFloat.mul .binary32 u v) (UnpackedFloat.mul .binary32 u' v') := by
  rcases hu with rfl | ⟨s, s', rfl, rfl⟩
  · rcases hv with rfl | ⟨t, t', rfl, rfl⟩
    · exact Alike.refl _
    · cases u with
      | zero | finite => exact Alike.zeros _ _
      | notANumber | infinity => exact Alike.refl _
  · rcases hv with rfl | ⟨t, t', rfl, rfl⟩
    · cases v with
      | zero | finite => exact Alike.zeros _ _
      | notANumber | infinity => exact Alike.refl _
    · exact Alike.zeros _ _

end

namespace Scalar

variable {a a' b b' c : Scalar}

theorem agrees_pack {u v : UnpackedFloat} (h : Alike u v) :
    Agrees (.ofModel (.pack u)) (.ofModel (.pack v)) := by
  rw [agrees_iff]
  rcases h with rfl | ⟨s, s', rfl, rfl⟩
  · exact Alike.refl _
  · have hzero (s : Sign) : unpacked (.ofModel (.pack (.zero s))) = .zero s := unpack_pack trivial
    rw [hzero, hzero]
    exact Alike.zeros s s'

namespace Agrees

@[refl] theorem refl (a : Scalar) : a.Agrees a := (agrees_iff a a).2 (Alike.refl _)

theorem symm (h : a.Agrees b) : b.Agrees a := (agrees_iff b a).2 ((agrees_iff a b).1 h).symm

theorem trans (h : a.Agrees b) (h' : b.Agrees c) : a.Agrees c :=
  (agrees_iff a c).2 (((agrees_iff a b).1 h).trans ((agrees_iff b c).1 h'))

theorem add (ha : a.Agrees a') (hb : b.Agrees b') : (a + b).Agrees (a' + b') :=
  agrees_pack (add_alike ((agrees_iff a a').1 ha) ((agrees_iff b b').1 hb))

theorem neg (ha : a.Agrees a') : (-a).Agrees (-a') :=
  agrees_pack ((agrees_iff a a').1 ha).neg

theorem sub (ha : a.Agrees a') (hb : b.Agrees b') : (a - b).Agrees (a' - b') := by
  rw [Scalar.sub_eq_add_neg, Scalar.sub_eq_add_neg]
  exact ha.add hb.neg

theorem mul (ha : a.Agrees a') (hb : b.Agrees b') : (a * b).Agrees (a' * b') :=
  agrees_pack (mul_alike ((agrees_iff a a').1 ha) ((agrees_iff b b').1 hb))

/-- Numbers that agree have the same value. -/
theorem value (h : a.Agrees b) : a.value = b.value := by
  rw [value_eq, value_eq]
  rcases (agrees_iff a b).1 h with h | ⟨s, s', ha, hb⟩
  · rw [h]
  · rw [ha, hb]
    rfl

theorem isFinite (h : a.Agrees b) : isFinite a = isFinite b := by
  rw [isFinite_eq, isFinite_eq]
  rcases (agrees_iff a b).1 h with h | ⟨s, s', ha, hb⟩
  · rw [h]
  · rw [ha, hb]
    rfl

end Agrees

/-- Finite numbers of the same value agree. -/
theorem agrees_of_value (ha : isFinite a = true) (hb : isFinite b = true) (h : a.value = b.value) :
    a.Agrees b := .inl ((beq_iff ha hb).2 h)

/-- Magnitudes do not tell the zeros apart. -/
theorem Agrees.abs_eq (h : a.Agrees b) : a.abs = b.abs := by
  apply unpacked_injective
  rw [unpacked_abs, unpacked_abs]
  rcases (agrees_iff a b).1 h with h | ⟨s, s', ha, hb⟩
  · rw [h]
  · rw [ha, hb]
    rfl

/-- What agrees with a number equals what that number equals. -/
theorem Agrees.beq (hab : a.Agrees b) (h : (b == c) = true) : (a == c) = true := by
  rcases hab.trans (.inl h) with hac | ⟨-, hnan⟩
  · exact hac
  · rw [beq_iff_compare] at h
    rw [isNaN_eq] at hnan
    generalize b.unpacked = u at h
    generalize c.unpacked = v at h hnan
    cases v with
    | notANumber => cases u <;> cases h
    | infinity | zero | finite => cases hnan

/-- A number of value zero is a zero. -/
theorem unpacked_zero {x : Scalar} (hx : isFinite x = true) (h : x.value = 0) :
    ∃ s, x.unpacked = .zero s := by
  rw [isFinite_eq] at hx
  rw [value_eq] at h
  generalize x.unpacked = u at hx h ⊢
  cases u with
  | infinity | notANumber => cases hx
  | zero s => exact ⟨s, rfl⟩
  | finite s m e hm =>
    -- a mantissa is positive, so is a power of two
    have hvalue : signFactor s * (m : ℤ) * (2 : ℚ) ^ e = 0 := by
      rw [← apply_cast]
      exact h
    have hsign : signFactor s ≠ 0 := by
      cases s with
      | negative => show (-1 : ℚ) ≠ 0; norm_num
      | positive => show (1 : ℚ) ≠ 0; norm_num
    have hmantissa : ((m : ℤ) : ℚ) ≠ 0 := by exact_mod_cast hm.ne'
    exact absurd hvalue (mul_ne_zero (mul_ne_zero hsign hmantissa) (by positivity))

/-- Adding zero changes at most the sign of a zero. -/
theorem Agrees.add_zero {a b : Scalar} (hb : Scalar.isFinite b = true) (h : b.value = 0) :
    (a + b).Agrees a := by
  obtain ⟨s, hs⟩ := unpacked_zero hb h
  have halike (u : UnpackedFloat) : Alike (UnpackedFloat.add .binary32 u (.zero s)) u := by
    cases u with
    | notANumber | infinity | finite => exact Alike.refl _
    | zero s' =>
      show Alike (if s' == s then .zero s' else .zero .positive) (.zero s')
      split <;> exact Alike.zeros _ _
  have hself : Float32.ofModel (.pack a.unpacked) = a := congrArg Float32.ofModel (pack_unpack a)
  have hagrees := agrees_pack (halike a.unpacked)
  rw [← hs, hself] at hagrees
  exact hagrees

end Scalar

/-! ## §3. Points. -/

/-- Points whose coordinates agree. -/
structure Point.Agrees (p q : Point) : Prop where
  x : p.x.Agrees q.x
  y : p.y.Agrees q.y

namespace Point.Agrees

variable {p p' q q' r : Point}

@[refl] theorem refl (p : Point) : p.Agrees p := ⟨.refl _, .refl _⟩

theorem symm (h : p.Agrees q) : q.Agrees p := ⟨h.x.symm, h.y.symm⟩

theorem trans (h : p.Agrees q) (h' : q.Agrees r) : p.Agrees r := ⟨h.x.trans h'.x, h.y.trans h'.y⟩

theorem add (hp : p.Agrees p') (hq : q.Agrees q') : (p + q).Agrees (p' + q') :=
  ⟨hp.x.add hq.x, hp.y.add hq.y⟩

theorem reflect (hp : p.Agrees p') (hq : q.Agrees q') : (p.reflect q).Agrees (p'.reflect q') :=
  ⟨((Scalar.Agrees.refl _).mul hq.x).sub hp.x, ((Scalar.Agrees.refl _).mul hq.y).sub hp.y⟩

end Point.Agrees

end VectorIcon

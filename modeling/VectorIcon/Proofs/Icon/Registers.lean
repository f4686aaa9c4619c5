/-
  VectorIcon.Proofs.Icon.Registers
  ────────────────────────────────
  **EVERY PATH FINDS ITS WEIGHT IN THE REGISTER IT NAMES.**

  A reader of the icon only knows the settings it has passed: the latest setting
  of an adjustment is what a path with that adjustment is painted with.  The
  writer's registers say the same at every stage (`Registers.Holds`), since each
  selection either finds its weight, takes the first free register, or overwrites
  the next one in turn (`Registers.select_cases`).

      items_at         — an item of an icon belongs to one painting: it is its
                         path, or the setting right before it
      encode_registers — paths find their weights, settings are made only when
                         they are needed and in turn, and up to six weights are
                         set once each
-/
import Mathlib.Data.Finset.Card
import VectorIcon.Proofs.Icon.Layout

namespace VectorIcon

namespace Icon

/-! ## §1. What a reader knows. -/

namespace Content

/-- The latest setting of an adjustment among items. -/
def latest? (is : List Item) (adjustment : UInt8) : Option RegisterSetting :=
  (registersOf is).reverse.find? (·.adjustment = adjustment)

/-- The weights which are held after items, by ascending adjustment. -/
def held (is : List Item) : List UInt8 :=
  (List.range 256).filterMap fun a => (latest? is (UInt8.ofNat a)).map (·.weight)

theorem registersOf_append (is js : List Item) :
    registersOf (is ++ js) = registersOf is ++ registersOf js :=
  List.filterMap_append

theorem pathsOf_append (is js : List Item) : pathsOf (is ++ js) = pathsOf is ++ pathsOf js :=
  List.filterMap_append

theorem registersOf_snoc_path (is : List Item) (a : UInt8) (o : Outline) :
    registersOf (is ++ [.path a o]) = registersOf is := by
  rw [registersOf_append]
  exact List.append_nil _

theorem registersOf_snoc_register (is : List Item) (a w first second : UInt8) :
    registersOf (is ++ [.register a w first second]) = registersOf is ++ [⟨a, w, first, second⟩] :=
  registersOf_append _ _

theorem latest?_snoc_register (is : List Item) (a w first second b : UInt8) :
    latest? (is ++ [.register a w first second]) b =
      if b = a then some ⟨a, w, first, second⟩ else latest? is b := by
  unfold latest?
  rw [registersOf_snoc_register, List.reverse_append]
  show (_ :: _).find? _ = _
  rw [List.find?_cons]
  by_cases h : b = a
  · simp [h]
  · have hne : ¬ a = b := fun hab => h hab.symm
    simp [h, hne]

end Content

/-! ## §2. Selecting a register. -/

namespace Registers

/-- Index of the register which the next new weight takes. -/
def slot (r : Registers) : Nat :=
  if r.weights.length < registerCount then r.weights.length else r.next

/-- The registers after a new weight is stored. -/
def store (r : Registers) (weight : UInt8) : Registers :=
  if r.weights.length < registerCount then { r with weights := r.weights ++ [weight] }
  else ⟨r.weights.set r.next weight, (r.next + 1) % registerCount⟩

/-- **What a selection does**: an opaque weight takes the foreground, a weight
    which is held its register, any other weight is stored. -/
theorem select_cases (r : Registers) (weight : UInt8) :
    (weight = 255 ∧ r.select weight = (0, [], r)) ∨
      (∃ i, weight ≠ 255 ∧ r.weights[i]? = some weight ∧
        r.select weight = (adjustment i, [], r)) ∨
      (weight ≠ 255 ∧ weight ∉ r.weights ∧
        r.select weight = (adjustment r.slot, setBytes (adjustment r.slot) weight, r.store weight)) := by
  unfold select slot store
  by_cases ho : weight = 255
  · exact .inl ⟨ho, if_pos ho⟩
  · right
    rw [if_neg ho]
    cases hfind : r.weights.findIdx? (· = weight) with
    | some i =>
      obtain ⟨hlt, hi, -⟩ := List.findIdx?_eq_some_iff_getElem.1 hfind
      refine .inl ⟨i, ho, ?_, rfl⟩
      rw [List.getElem?_eq_getElem hlt, of_decide_eq_true hi]
    | none =>
      refine .inr ⟨ho, fun hmem => ?_, ?_⟩
      · have := List.findIdx?_eq_none_iff.1 hfind weight hmem
        simp at this
      · simp only
        split <;> rfl

/-- What a reader should find for an adjustment. -/
def setting? (r : Registers) (a : UInt8) : Option RegisterSetting :=
  if a = 0 then none
  else (r.weights[a.toNat - 1]?).map (⟨a, ·, transparentByte, firstPaletteByte⟩)

theorem toNat_adjustment {i : Nat} (h : i < registerCount) : (adjustment i).toNat = i + 1 := by
  unfold adjustment
  unfold registerCount at h
  rw [UInt8.toNat_ofNat']
  omega

theorem setting?_adjustment (r : Registers) {i : Nat} (h : i < registerCount) :
    r.setting? (adjustment i) =
      (r.weights[i]?).map (⟨adjustment i, ·, transparentByte, firstPaletteByte⟩) := by
  have hne : adjustment i ≠ 0 := fun h0 => by
    have := toNat_adjustment h
    rw [h0] at this
    cases this
  unfold setting?
  rw [if_neg hne, toNat_adjustment h, Nat.add_sub_cancel]

theorem slot_lt {r : Registers} (hr : r.Bounded) : r.slot < registerCount := by
  unfold slot
  split
  · assumption
  · exact hr.next_lt

/-- Storing changes the register at the slot and no other. -/
theorem getElem?_store {r : Registers} (hr : r.Bounded) (weight : UInt8) (i : Nat) :
    (r.store weight).weights[i]? = if i = r.slot then some weight else r.weights[i]? := by
  have hle := hr.weights_le
  have hnext := hr.next_lt
  unfold store slot
  by_cases hroom : r.weights.length < registerCount
  · rw [if_pos hroom, if_pos hroom, List.getElem?_append]
    by_cases hi : i < r.weights.length
    · rw [if_pos hi, if_neg (by omega)]
    · rw [if_neg hi]
      by_cases heq : i = r.weights.length
      · rw [if_pos heq, heq, Nat.sub_self]
        rfl
      · rw [if_neg heq, List.getElem?_eq_none (by simp only [List.length_singleton]; omega),
          List.getElem?_eq_none (by omega)]
  · rw [if_neg hroom, if_neg hroom]
    show (r.weights.set r.next weight)[i]? = _
    rw [List.getElem?_set]
    by_cases heq : r.next = i
    · rw [if_pos heq, if_pos heq.symm, if_pos (by omega)]
    · rw [if_neg heq, if_neg (fun h => heq h.symm)]

theorem setting?_store {r : Registers} (hr : r.Bounded) (weight a : UInt8) :
    (r.store weight).setting? a =
      if a = adjustment r.slot then
        some ⟨adjustment r.slot, weight, transparentByte, firstPaletteByte⟩
      else r.setting? a := by
  have hslot := slot_lt hr
  by_cases heq : a = adjustment r.slot
  · rw [if_pos heq, heq, setting?_adjustment _ hslot, getElem?_store hr, if_pos rfl]
    rfl
  · rw [if_neg heq]
    unfold setting?
    by_cases h0 : a = 0
    · rw [if_pos h0, if_pos h0]
    · -- another adjustment has another index
      have hne : a.toNat - 1 ≠ r.slot := fun h => heq <| by
        have hpos : a.toNat ≠ 0 := fun h => h0 (UInt8.toNat_inj.1 h)
        rw [← UInt8.toNat_inj, toNat_adjustment hslot]
        omega
      rw [if_neg h0, if_neg h0, getElem?_store hr, if_neg hne]

theorem mem_store {r : Registers} {weight w : UInt8} (h : w ∈ (r.store weight).weights) :
    w ∈ r.weights ∨ w = weight := by
  unfold store at h
  split at h
  · rcases List.mem_append.1 h with h | h
    · exact .inl h
    · exact .inr (List.mem_singleton.1 h)
  · exact List.mem_or_eq_of_mem_set h

theorem nodup_store {r : Registers} {weight : UInt8} (hd : r.weights.Nodup)
    (hw : weight ∉ r.weights) : (r.store weight).weights.Nodup := by
  unfold store
  split
  · exact List.nodup_append.2 ⟨hd, List.nodup_singleton _, fun a ha b hb hab =>
      hw (List.mem_singleton.1 hb ▸ hab ▸ ha)⟩
  · exact hd.set hw

/-! ## §3. Writer and reader agree on the registers. -/

/-- The registers are what a reader knows after the items. -/
structure Holds (r : Registers) (is : List Item) : Prop where
  bounded : r.Bounded
  /-- Registers are not overwritten before all of them are taken. -/
  fresh : r.weights.length < registerCount → r.next = 0
  distinct : r.weights.Nodup
  translucent : 255 ∉ r.weights
  latest : ∀ a, Content.latest? is a = r.setting? a
  /-- The settings so far took the registers in turn. -/
  turns : (Content.registersOf is).map (·.adjustment) =
    (List.range (Content.registersOf is).length).map fun n => adjustment (n % registerCount)
  slot_eq : r.slot = (Content.registersOf is).length % registerCount

theorem empty_holds : empty.Holds [] where
  bounded := empty_bounded
  fresh _ := rfl
  distinct := List.nodup_nil
  translucent := List.not_mem_nil
  latest a := by
    unfold setting?
    split <;> rfl
  turns := rfl
  slot_eq := rfl

/-- Paths do not change registers. -/
theorem Holds.path {r : Registers} {is : List Item} (h : r.Holds is) (a : UInt8) (o : Outline) :
    r.Holds (is ++ [.path a o]) := by
  have hsame := Content.registersOf_snoc_path is a o
  refine ⟨h.bounded, h.fresh, h.distinct, h.translucent, fun b => ?_, ?_, ?_⟩
  · rw [← h.latest b]
    unfold Content.latest?
    rw [hsame]
  · rw [hsame]
    exact h.turns
  · rw [hsame]
    exact h.slot_eq

theorem store_bounded {r : Registers} (hr : r.Bounded) (weight : UInt8) :
    (r.store weight).Bounded := by
  unfold store
  split
  · refine ⟨?_, hr.next_lt⟩
    rw [List.length_append]
    assumption
  · refine ⟨?_, Nat.mod_lt _ (by decide)⟩
    rw [List.length_set]
    exact hr.weights_le

/-- The slot moves on by one, around the registers. -/
theorem slot_store {r : Registers} (hr : r.Bounded)
    (hfresh : r.weights.length < registerCount → r.next = 0) (weight : UInt8) :
    (r.store weight).slot = (r.slot + 1) % registerCount := by
  have hle := hr.weights_le
  unfold slot store
  by_cases hroom : r.weights.length < registerCount
  · rw [if_pos hroom, if_pos hroom, List.length_append]
    show (if r.weights.length + 1 < registerCount then r.weights.length + 1 else r.next) = _
    rw [hfresh hroom]
    by_cases hlast : r.weights.length + 1 < registerCount
    · rw [if_pos hlast, Nat.mod_eq_of_lt hlast]
    · -- the sixth register is taken, the first one is next
      rw [if_neg hlast, show r.weights.length + 1 = registerCount by omega, Nat.mod_self]
  · rw [if_neg hroom, if_neg hroom, List.length_set, if_neg hroom]

/-- **A setting of the slot keeps the agreement.** -/
theorem Holds.store {r : Registers} {is : List Item} (h : r.Holds is) {weight : UInt8}
    (ho : weight ≠ 255) (hnew : weight ∉ r.weights) :
    (r.store weight).Holds
      (is ++ [.register (adjustment r.slot) weight transparentByte firstPaletteByte]) := by
  have hset := Content.registersOf_snoc_register is (adjustment r.slot) weight transparentByte
    firstPaletteByte
  refine ⟨store_bounded h.bounded weight, ?_, nodup_store h.distinct hnew, ?_, fun a => ?_, ?_, ?_⟩
  · intro hroom
    unfold Registers.store at hroom ⊢
    split at hroom
    · next hlt =>
      rw [if_pos hlt]
      exact h.fresh hlt
    · next hfull =>
      rw [List.length_set] at hroom
      exact absurd hroom hfull
  · intro hmem
    rcases mem_store hmem with hmem | hmem
    · exact h.translucent hmem
    · exact ho hmem.symm
  · rw [Content.latest?_snoc_register, setting?_store h.bounded, h.latest]
  · rw [hset, List.map_append, h.turns, List.length_append, List.length_singleton, List.range_succ,
      List.map_append, h.slot_eq]
    rfl
  · rw [hset, slot_store h.bounded h.fresh, h.slot_eq, List.length_append, List.length_singleton,
      Nat.mod_add_mod]

/-- The registers after paintings. -/
def after (r : Registers) (ps : List Painting) : Registers :=
  ps.foldl (fun r p => (r.select p.weight).2.2) r

/-- A selection either writes nothing and changes nothing, or writes the setting
    of the slot and stores its weight. -/
theorem settingItems_cases (r : Registers) (weight : UInt8) :
    ((weight = 255 ∨ weight ∈ r.weights) ∧ r.settingItems weight = [] ∧
        (r.select weight).2.2 = r) ∨
      (weight ≠ 255 ∧ weight ∉ r.weights ∧
        r.settingItems weight =
          [.register (adjustment r.slot) weight transparentByte firstPaletteByte] ∧
        (r.select weight).2.2 = r.store weight) := by
  unfold settingItems
  rcases r.select_cases weight with ⟨ho, hs⟩ | ⟨i, -, hi, hs⟩ | ⟨ho, hn, hs⟩
  · rw [hs]
    exact .inl ⟨.inl ho, rfl, rfl⟩
  · rw [hs]
    exact .inl ⟨.inr (List.mem_of_getElem? hi), rfl, rfl⟩
  · rw [hs]
    exact .inr ⟨ho, hn, rfl, rfl⟩

/-- The setting of a weight, if there is one, keeps the agreement. -/
theorem Holds.select {r : Registers} {is : List Item} (h : r.Holds is) (weight : UInt8) :
    (r.select weight).2.2.Holds (is ++ r.settingItems weight) := by
  rcases r.settingItems_cases weight with ⟨-, hitems, hnext⟩ | ⟨ho, hn, hitems, hnext⟩
  · rw [hitems, hnext, List.append_nil]
    exact h
  · rw [hitems, hnext]
    exact h.store ho hn

/-- **The agreement is kept by every painting.** -/
theorem Holds.items {r : Registers} {is : List Item} (h : r.Holds is) (ps : List Painting) :
    (r.after ps).Holds (is ++ r.items ps) := by
  induction ps generalizing r is with
  | nil =>
    rw [Registers.items, List.append_nil]
    exact h
  | cons p ps ih =>
    have hstep := ih ((h.select p.weight).path (r.select p.weight).1 p.outline.recovered)
    rwa [List.append_assoc, List.append_assoc] at hstep

/-- The registers hold what a reader knows. -/
theorem Holds.held_eq {r : Registers} {is : List Item} (h : r.Holds is) :
    Content.held is = r.weights := by
  have htake : ∀ n, (List.range n).filterMap (r.weights[·]?) = r.weights.take n := by
    intro n
    induction n with
    | zero => rfl
    | succ n ih =>
      rw [List.range_succ, List.filterMap_append, ih, List.take_add_one]
      cases hn : r.weights[n]? <;> simp [hn]
  have hle : r.weights.length ≤ 6 := h.bounded.weights_le
  unfold Content.held
  -- adjustment 0 holds nothing, the others hold the weights in order
  rw [List.range_succ_eq_map, List.filterMap_cons_none (by rw [h.latest]; rfl), List.filterMap_map,
    ← List.take_of_length_le (Nat.le_trans hle (by decide : 6 ≤ 255)), ← htake 255]
  refine List.filterMap_congr fun i hi => ?_
  have hlt : i < 255 := List.mem_range.1 hi
  show (Content.latest? is (UInt8.ofNat (i + 1))).map _ = _
  have htoNat : (UInt8.ofNat (i + 1)).toNat = i + 1 := by
    rw [UInt8.toNat_ofNat']
    omega
  rw [h.latest]
  unfold setting?
  rw [if_neg (fun h0 => by rw [h0] at htoNat; cases htoNat), htoNat, Nat.add_sub_cancel,
    Option.map_map]
  exact Option.map_id'

/-! ## §4. Items belong to paintings. -/

/-- An item of paintings, with the items before it and the items after it. -/
inductive Part (r : Registers) (ps : List Painting) : List Item → Item → List Item → Prop where
  /-- The path of a painting, after its setting and all earlier paintings. -/
  | path (done : List Painting) (p : Painting) (left : List Painting) (rest : List Item) :
      ps = done ++ p :: left →
      Part r ps (r.items done ++ (r.after done).settingItems p.weight) ((r.after done).pathItem p)
        rest
  /-- The setting of a painting, right before its path. -/
  | setting (done : List Painting) (p : Painting) (left : List Painting) (x : Item)
      (rest : List Item) : ps = done ++ p :: left → (r.after done).settingItems p.weight = [x] →
      Part r ps (r.items done) x ((r.after done).pathItem p :: rest)

theorem Part.later {r : Registers} {p : Painting} {ps : List Painting} {before : List Item}
    {x : Item} {rest : List Item} (h : Part (r.select p.weight).2.2 ps before x rest) :
    Part r (p :: ps) (r.settingItems p.weight ++ r.pathItem p :: before) x rest := by
  cases h with
  | path done q left _ hps =>
    have hpath := Part.path (r := r) (p :: done) q left rest (congrArg (p :: ·) hps)
    rw [items, List.append_assoc] at hpath
    exact hpath
  | setting done q left _ rest hps hset =>
    exact .setting (p :: done) q left x rest (congrArg (p :: ·) hps) hset

/-- **Every item belongs to a painting.** -/
theorem items_at {r : Registers} {ps : List Painting} {before : List Item} {x : Item}
    {rest : List Item} (h : r.items ps = before ++ x :: rest) : Part r ps before x rest := by
  induction ps generalizing r before with
  | nil => simp [items] at h
  | cons p ps ih =>
    have hpath : ∀ rest, Part r (p :: ps) (r.settingItems p.weight) (r.pathItem p) rest :=
      fun rest => .path [] p ps rest rfl
    have hset : ∀ y rest, r.settingItems p.weight = [y] →
        Part r (p :: ps) [] y (r.pathItem p :: rest) :=
      fun y rest hy => .setting [] p ps y rest rfl hy
    have hlater : ∀ before', Part (r.select p.weight).2.2 ps before' x rest →
        Part r (p :: ps) (r.settingItems p.weight ++ r.pathItem p :: before') x rest :=
      fun _ => Part.later
    rw [items] at h
    -- the item is in the group of the first painting or among those of the others
    rcases r.settingItems_cases p.weight with ⟨-, hitems, -⟩ | ⟨-, -, hitems, -⟩
    · rw [hitems] at h hpath hlater
      rcases List.cons_eq_append_iff.1 h with ⟨rfl, hx⟩ | ⟨before', rfl, hrest⟩
      · obtain ⟨rfl, -⟩ := List.cons.inj hx
        exact hpath _
      · exact hlater before' (ih hrest)
    · rw [hitems] at h hpath hlater
      rcases List.cons_eq_append_iff.1 h with ⟨rfl, hx⟩ | ⟨before', rfl, hgroup⟩
      · obtain ⟨rfl, rfl⟩ := List.cons.inj hx
        exact hset _ _ hitems
      · rcases List.cons_eq_append_iff.1 hgroup with ⟨rfl, hx⟩ | ⟨before'', rfl, hrest⟩
        · obtain ⟨rfl, -⟩ := List.cons.inj hx
          exact hpath _
        · exact hlater before'' (ih hrest)

theorem pathsOf_settingItems (r : Registers) (weight : UInt8) :
    Content.pathsOf (r.settingItems weight) = [] := by
  unfold settingItems
  split <;> rfl

theorem length_pathsOf_items (r : Registers) (ps : List Painting) :
    (Content.pathsOf (r.items ps)).length = ps.length := by
  induction ps generalizing r with
  | nil => rfl
  | cons p ps ih =>
    have hpath : Content.pathsOf (r.pathItem p :: (r.select p.weight).2.2.items ps) =
        ⟨(r.select p.weight).1, p.outline.recovered.strokes⟩ ::
          Content.pathsOf ((r.select p.weight).2.2.items ps) := rfl
    rw [items, Content.pathsOf_append, pathsOf_settingItems, hpath]
    simp [ih]

/-- At every stage there are registers which hold what a reader knows. -/
theorem Holds.before {r : Registers} (hr : r.Holds []) {ps : List Painting}
    {before rest : List Item} (h : r.items ps = before ++ rest) :
    ∃ r' : Registers, r'.Holds before := by
  cases rest with
  | nil =>
    rw [List.append_nil] at h
    exact ⟨_, h ▸ hr.items ps⟩
  | cons x rest =>
    cases items_at h with
    | path done p => exact ⟨_, (hr.items done).select p.weight⟩
    | setting done => exact ⟨_, hr.items done⟩

/-! ## §5. Few weights are set once each. -/

/-- With room for the weights of a set nothing is overwritten: the settings are
    the registers, and hold the translucent weights so far. -/
theorem Holds.roomy {r : Registers} {is : List Item} (h : r.Holds is) {few : Finset UInt8}
    (hfew : few.card ≤ registerCount) (hin : ∀ w ∈ r.weights, w ∈ few)
    (hset : (Content.registersOf is).map (·.weight) = r.weights) {ps : List Painting}
    (hps : ∀ p ∈ ps, p.weight ≠ 255 → p.weight ∈ few) :
    (Content.registersOf (is ++ r.items ps)).map (·.weight) = (r.after ps).weights ∧
      ∀ w, w ∈ (r.after ps).weights ↔ w ∈ r.weights ∨ w ≠ 255 ∧ ∃ p ∈ ps, p.weight = w := by
  induction ps generalizing r is with
  | nil => simp [Registers.items, after, hset]
  | cons p ps ih =>
    have hnext : ((r.select p.weight).2.2.weights = r.weights ∧
          (p.weight = 255 ∨ p.weight ∈ r.weights) ∧ r.settingItems p.weight = []) ∨
        ((r.select p.weight).2.2.weights = r.weights ++ [p.weight] ∧ p.weight ≠ 255 ∧
          r.settingItems p.weight =
            [.register (adjustment r.slot) p.weight transparentByte firstPaletteByte]) := by
      rcases r.settingItems_cases p.weight with ⟨hheld, hitems, hsel⟩ | ⟨ho, hn, hitems, hsel⟩
      · exact .inl ⟨by rw [hsel], hheld, hitems⟩
      · refine .inr ⟨?_, ho, hitems⟩
        -- the weights held and the new one are all in the set
        have hsub : (p.weight :: r.weights).toFinset ⊆ few := fun w hw => by
          rcases List.mem_cons.1 (List.mem_toFinset.1 hw) with rfl | hw
          · exact hps p List.mem_cons_self ho
          · exact hin w hw
        have hcard := Finset.card_le_card hsub
        rw [List.toFinset_card_of_nodup (List.nodup_cons.2 ⟨hn, h.distinct⟩),
          List.length_cons] at hcard
        rw [hsel, Registers.store, if_pos (by omega)]
    have hstep := (h.select p.weight).path (r.select p.weight).1 p.outline.recovered
    have hsplit : is ++ r.items (p :: ps) =
        (is ++ r.settingItems p.weight ++ [r.pathItem p]) ++ (r.select p.weight).2.2.items ps := by
      simp [Registers.items]
    obtain ⟨hregs, hmem⟩ := ih hstep
      (fun w hw => by
        rcases hnext with ⟨hweights, -⟩ | ⟨hweights, ho, -⟩
        · exact hin w (hweights ▸ hw)
        · rw [hweights] at hw
          rcases List.mem_append.1 hw with hw | hw
          · exact hin w hw
          · rw [List.mem_singleton.1 hw]
            exact hps p List.mem_cons_self ho)
      (by
        rw [Content.registersOf_snoc_path]
        rcases hnext with ⟨hweights, -, hitems⟩ | ⟨hweights, -, hitems⟩
        · rw [hweights, hitems, List.append_nil, hset]
        · rw [hweights, hitems, Content.registersOf_snoc_register, List.map_append, hset]
          rfl)
      (fun q hq => hps q (List.mem_cons_of_mem _ hq))
    refine ⟨hsplit ▸ hregs, fun w => (hmem w).trans ?_⟩
    rcases hnext with ⟨hweights, hheld, -⟩ | ⟨hweights, ho, -⟩
    · rw [hweights]
      grind
    · rw [hweights]
      grind

/-- A translucent weight is held at the index of its adjustment. -/
theorem select_index {r : Registers} (hr : r.Bounded) {weight : UInt8} (ho : weight ≠ 255) :
    ∃ i < registerCount, (r.select weight).1 = adjustment i ∧
      (r.select weight).2.2.weights[i]? = some weight := by
  rcases r.select_cases weight with ⟨h, -⟩ | ⟨i, -, hi, hs⟩ | ⟨-, -, hs⟩
  · exact absurd h ho
  · obtain ⟨hlt, -⟩ := List.getElem?_eq_some_iff.1 hi
    exact ⟨i, Nat.lt_of_lt_of_le hlt hr.weights_le, by rw [hs], by rw [hs, hi]⟩
  · exact ⟨r.slot, slot_lt hr, by rw [hs], by rw [hs, getElem?_store hr, if_pos rfl]⟩

/-- What is selected for a painting is found by its path. -/
theorem Holds.finds {r : Registers} {is : List Item} (h : r.Holds is) (weight : UInt8) :
    ((r.select weight).1 = 0 ↔ weight = 255) ∧
      (weight ≠ 255 → 1 ≤ (r.select weight).1.toNat ∧
        (r.select weight).1.toNat ≤ registerCount ∧
        Content.latest? (is ++ r.settingItems weight) (r.select weight).1 =
          some ⟨(r.select weight).1, weight, transparentByte, firstPaletteByte⟩) := by
  by_cases ho : weight = 255
  · have hs : r.select weight = (0, [], r) := if_pos ho
    rw [hs]
    exact ⟨⟨fun _ => ho, fun _ => rfl⟩, fun hne => absurd ho hne⟩
  · obtain ⟨i, hlt, ha, hi⟩ := select_index h.bounded ho
    have htoNat := toNat_adjustment hlt
    have hlatest := (h.select weight).latest (r.select weight).1
    rw [ha, setting?_adjustment _ hlt, hi, ← ha] at hlatest
    rw [← ha] at htoNat
    refine ⟨⟨fun h0 => ?_, fun h255 => absurd h255 ho⟩, fun _ => ⟨?_, ?_, hlatest⟩⟩
    · simp [h0] at htoNat
    · omega
    · omega

end Registers

/-! ## §6. The registers of an icon. -/

/-- The opacity weights of the paths with commands, in the order of a drawing. -/
def paintedWeights (d : Drawing) : List UInt8 :=
  d.paths.filterMap fun p =>
    match Path.parse p.data with
    | .ok (_ :: _) => some (opacityWeight p.paint.alpha)
    | _ => none

theorem paintings_weights (t : Transform) (d : Drawing) :
    (d.paths.filterMap (painting? t)).map Painting.weight = paintedWeights d := by
  rw [List.map_filterMap]
  refine List.filterMap_congr fun p _ => ?_
  cases hparse : Path.parse p.data with
  | error e =>
    unfold painting?
    rw [hparse]
    rfl
  | ok cs =>
    rcases Path.parse_starts hparse with rfl | ⟨f, target, rest, rfl⟩
    · rw [Encoder.painting?_empty hparse]
      rfl
    · rw [Encoder.painting?_outline hparse rfl]
      rfl

/-- Registers serve paths with the given weights: what stands in the items of an
    icon for paths to be painted with them. -/
structure Served (weights : List UInt8) (is : List Item) : Prop where
  /-- There is one path for each weight. -/
  count : (Content.pathsOf is).length = weights.length
  /-- A path names the foreground if and only if it is opaque.  Otherwise it
      names a register whose latest setting is the blend of its weight. -/
  paths : ∀ before a o rest, is = before ++ .path a o :: rest →
    ∃ w, weights[(Content.pathsOf before).length]? = some w ∧ (a = 0 ↔ w = 255) ∧
      (w ≠ 255 → 1 ≤ a.toNat ∧ a.toNat ≤ registerCount ∧
        Content.latest? before a = some ⟨a, w, transparentByte, firstPaletteByte⟩)
  /-- A setting stands right before the path with its adjustment and weight, and
      no register holds that weight. -/
  needed : ∀ before a w first second rest, is = before ++ .register a w first second :: rest →
    w ∉ Content.held before ∧ weights[(Content.pathsOf before).length]? = some w ∧
      ∃ o rest', rest = .path a o :: rest'
  /-- At every stage the held weights are distinct, translucent and few. -/
  held : ∀ before rest, is = before ++ rest →
    (Content.held before).Nodup ∧ 255 ∉ Content.held before ∧
      (Content.held before).length ≤ registerCount
  /-- Settings take the registers in turn. -/
  turns : (Content.registersOf is).map (·.adjustment) =
    (List.range (Content.registersOf is).length).map
      fun n => Registers.adjustment (n % registerCount)
  /-- If there are registers for all translucent weights, each is set once. -/
  once : (weights.toFinset.erase 255).card ≤ registerCount →
    ((Content.registersOf is).map (·.weight)).Nodup ∧
      ∀ w, w ∈ (Content.registersOf is).map (·.weight) ↔ w ∈ weights ∧ w ≠ 255

/-- The items of paintings serve their weights. -/
theorem Registers.items_served (ps : List Painting) :
    Served (ps.map Painting.weight) (empty.items ps) := by
  have hrun := empty_holds.items ps
  rw [List.nil_append] at hrun
  -- the weight of a painting is at the place of its path
  have hplace : ∀ {done p left}, ps = done ++ p :: left → ∀ is : List Item,
      (Content.pathsOf is).length = done.length →
      (ps.map Painting.weight)[(Content.pathsOf is).length]? = some p.weight := by
    rintro done p left rfl is his
    simp [his]
  refine ⟨by rw [length_pathsOf_items, List.length_map], ?_, ?_, ?_, hrun.turns, ?_⟩
  · intro before a o rest h
    generalize hx : Item.path a o = x at h
    cases items_at h with
    | path done p left _ hps =>
      have hdone := empty_holds.items done
      rw [List.nil_append] at hdone
      obtain ⟨rfl, -⟩ := Item.path.inj hx
      refine ⟨p.weight, hplace hps _ ?_, hdone.finds p.weight⟩
      rw [Content.pathsOf_append, pathsOf_settingItems, List.append_nil, length_pathsOf_items]
    | setting done p left _ _ hps hset =>
      rcases (empty.after done).settingItems_cases p.weight with ⟨-, hs, -⟩ | ⟨-, -, hs, -⟩ <;>
        rw [hs, ← hx] at hset <;> cases hset
  · intro before a w first second rest h
    generalize hx : Item.register a w first second = x at h
    cases items_at h with
    | path => cases hx
    | setting done p left _ _ hps hset =>
      have hdone := empty_holds.items done
      rw [List.nil_append] at hdone
      rcases (empty.after done).select_cases p.weight with ⟨-, hs⟩ | ⟨i, -, -, hs⟩ | ⟨-, hn, hs⟩
      all_goals
        unfold settingItems pathItem at *
        rw [hs, ← hx] at hset
      · cases hset
      · cases hset
      · obtain ⟨rfl, rfl, -, -⟩ := Item.register.inj (List.cons.inj hset).1
        rw [hdone.held_eq, hs]
        exact ⟨hn, hplace hps _ (length_pathsOf_items _ _), _, _, rfl⟩
  · intro before rest h
    obtain ⟨r, hr⟩ := empty_holds.before h
    rw [hr.held_eq]
    exact ⟨hr.distinct, hr.translucent, hr.bounded.weights_le⟩
  · intro hfew
    have hps : ∀ p ∈ ps, p.weight ≠ 255 → p.weight ∈ (ps.map Painting.weight).toFinset.erase 255 := by
      intro p hp ho
      simp only [Finset.mem_erase, List.mem_toFinset, List.mem_map]
      exact ⟨ho, p, hp, rfl⟩
    obtain ⟨hset, hmem⟩ := empty_holds.roomy hfew (fun w hw => absurd hw List.not_mem_nil) rfl hps
    rw [List.nil_append] at hset
    rw [hset]
    refine ⟨hrun.distinct, fun w => (hmem w).trans ?_⟩
    simp [empty, and_comm]

/-- **Color registers always hold what the paths need.** -/
theorem Encoder.encode_registers (e : Encoder) (d : Drawing) (bytes : List UInt8)
    (h : e.encode d = .ok bytes) :
    ∃ parts, readParts bytes = .ok parts ∧ Served (paintedWeights d) parts.items := by
  obtain ⟨-, -, -, hread⟩ := readParts_encode h
  exact ⟨_, hread, paintings_weights _ d ▸ Registers.items_served _⟩

/-- A drawing with an opaque path and seven opacities, the first of which comes
    again after its register was overwritten. -/
def translucentDrawing : Drawing where
  canvas := ⟨24.0, 24.0, ⟨0.0, 0.0, 24.0, 24.0⟩⟩
  paths := ([1.0, 0.1, 0.2, 0.3, 0.2, 0.4, 0.5, 0.6, 0.7, 0.1] : List Scalar).map
    fun opacity => ⟨"M1 1h4v4Z", { Paint.default with fillOpacity := some opacity }⟩

theorem Encoder.encode_registers_translucentDrawing :
    ∃ bytes, Encoder.encode ⟨48.0, .black⟩ translucentDrawing = .ok bytes ∧
      ∃ parts, readParts bytes = .ok parts ∧
        Served (paintedWeights translucentDrawing) parts.items := by
  have hsome : (Encoder.encode ⟨48.0, .black⟩ translucentDrawing).toOption.isSome = true := by
    decide +kernel
  obtain ⟨bytes, h⟩ := exists_encode hsome
  exact ⟨bytes, h, encode_registers ⟨48.0, .black⟩ translucentDrawing bytes h⟩

end Icon

end VectorIcon

/-
  VectorIcon.Proofs.Icon.Truncation
  ────────────────────────────────
  **ICONS WHICH ARE CUT, AND ICONS WHICH GO ON.**

  A reader of icons decides by the bytes which it takes and by nothing behind them,
  and if some of them are missing it finds that the data ends:

      Spells p bytes a    — `p` reads `a` from these bytes, whatever follows, and
                            runs out of data on every shorter beginning of them
      SelfDelimiting p    — all that `p` reads is spelled by what it takes

  Single bytes, words and rows of bytes are self-delimiting, and so is what is put
  together from such readers: sequences, counted repetitions, and repetitions up to
  a last item.  An icon is a header and items up to the end of the data.  So the
  beginning of an icon either lacks data or ends between two items, and no item
  depends on those before it.

  Main result:
    * `decode_cut`.
-/
import VectorIcon.Proofs.Icon.Layout
import VectorIcon.Proofs.Icon.Registers

namespace VectorIcon

namespace Icon

/-! ## §1. Bytes which spell something. -/

/-- A reader which runs out of data on every shorter beginning of these bytes. -/
def Starves {α : Type} (p : Reading α) (bytes : List UInt8) : Prop :=
  ∀ v w, bytes = v ++ w → w ≠ [] → ∃ rest, p v = .error ⟨.endOfData, rest⟩

/-- The bytes are read as the value, whatever follows them, and none is spare. -/
structure Spells {α : Type} (p : Reading α) (bytes : List UInt8) (a : α) : Prop where
  reads : Reads p bytes a
  starves : Starves p bytes

/-- What is read is spelled by the bytes which are taken. -/
def SelfDelimiting {α : Type} (p : Reading α) : Prop :=
  ∀ s a t, p s = .ok (a, t) → ∃ u, s = u ++ t ∧ Spells p u a

section

variable {α β : Type} {p : Reading α} {f : α → Reading β}

namespace Spells

theorem pure (a : α) : Spells (Pure.pure a) [] a where
  reads := .pure a
  starves _ _ h hw := absurd (List.append_eq_nil_iff.1 h.symm).2 hw

theorem bind {u u' : List UInt8} {a : α} {b : β} (hp : Spells p u a) (hf : Spells (f a) u' b) :
    Spells (p >>= f) (u ++ u') b where
  reads := hp.reads.bind hf.reads
  starves v w h hw := by
    -- the cut is within the first bytes, or the second reader meets it
    rcases List.append_eq_append_cases h with ⟨x, hx, rfl, -⟩ | ⟨v', rfl, rfl⟩
    · obtain ⟨rest, hrest⟩ := hp.starves v x rfl hx
      exact ⟨rest, Scan.bind_error.2 (.inl hrest)⟩
    · obtain ⟨rest, hrest⟩ := hf.starves v' w rfl hw
      exact ⟨rest, Scan.bind_error.2 (.inr ⟨a, v', hp.reads v', hrest⟩)⟩

end Spells

namespace SelfDelimiting

theorem pure (a : α) : SelfDelimiting (Pure.pure a : Reading α) := by
  intro s b t h
  obtain ⟨rfl, rfl⟩ := Scan.pure_ok.1 h
  exact ⟨[], rfl, .pure b⟩

/-- What always fails reads nothing. -/
theorem error (e : List UInt8 → DecodeFault) : SelfDelimiting (fun s => .error (e s) : Reading α) := by
  intro s a t h
  cases h

theorem bind (hp : SelfDelimiting p) (hf : ∀ a, SelfDelimiting (f a)) : SelfDelimiting (p >>= f) := by
  intro s b t h
  obtain ⟨a, r, ha, hb⟩ := Scan.bind_ok.1 h
  obtain ⟨u, rfl, hu⟩ := hp s a r ha
  obtain ⟨u', rfl, hu'⟩ := hf a r b t hb
  exact ⟨u ++ u', (List.append_assoc _ _ _).symm, hu.bind hu'⟩

/-- A result which is only wrapped. -/
theorem map (hp : SelfDelimiting p) (g : α → β) :
    SelfDelimiting (p >>= fun a => Pure.pure (g a) : Reading β) :=
  hp.bind fun _ => .pure _

theorem times (hp : SelfDelimiting p) : ∀ n : Nat, SelfDelimiting (Scan.times p n)
  | 0 => .pure []
  | n + 1 => hp.bind fun _ => (times hp n).map _

/-- Items up to and including the last one. -/
theorem through (hp : SelfDelimiting p) (htakes : Scan.Takes p) (isLast : α → Bool) :
    SelfDelimiting (Scan.through p htakes isLast : Reading (List α)) := by
  intro s as t h
  -- the recursion of the reader: a fault, the last item, and one more item
  fun_induction Scan.through p htakes isLast s generalizing as with
  | case1 => cases h
  | case2 s a t' hread hlast =>
    cases h
    obtain ⟨u, rfl, hu⟩ := hp s a t hread
    refine ⟨u, rfl, fun rest => ?_, fun v w huv hw => ?_⟩
    · rw [Scan.through_eq, hu.reads rest]
      simp only
      rw [if_pos hlast]
    · obtain ⟨rest, hrest⟩ := hu.starves v w huv hw
      exact ⟨rest, by rw [Scan.through_eq, hrest]⟩
  | case3 => cases h
  | case4 s a r hread hlast as' t' hmore ih =>
    cases h
    obtain ⟨u, rfl, hu⟩ := hp s a r hread
    obtain ⟨u', rfl, hu'⟩ := ih as' hmore
    refine ⟨u ++ u', (List.append_assoc _ _ _).symm, fun rest => ?_, fun v w huv hw => ?_⟩
    · rw [List.append_assoc, Scan.through_eq, hu.reads]
      simp only
      rw [if_neg hlast, hu'.reads rest]
    · rcases List.append_eq_append_cases huv with ⟨x, hx, rfl, -⟩ | ⟨v', rfl, rfl⟩
      · obtain ⟨rest, hrest⟩ := hu.starves v x rfl hx
        exact ⟨rest, by rw [Scan.through_eq, hrest]⟩
      · obtain ⟨rest, hrest⟩ := hu'.starves v' w rfl hw
        refine ⟨rest, ?_⟩
        rw [Scan.through_eq, hu.reads]
        simp only
        rw [if_neg hlast, hrest]

end SelfDelimiting

end

/-! ## §2. Numbers. -/

theorem byte_delimits : SelfDelimiting byte := by
  intro s b t h
  cases s with
  | nil => cases h
  | cons c s =>
    cases h
    refine ⟨[b], rfl, byte_reads b, fun v w hvw hw => ?_⟩
    rcases List.append_eq_singleton_iff.1 hvw.symm with ⟨rfl, -⟩ | ⟨-, rfl⟩
    · exact ⟨[], rfl⟩
    · exact absurd rfl hw

/-- As many items are split off as there have to be. -/
theorem splitExactly?_eq {α : Type} (n : Nat) (s : List α) :
    splitExactly? n s = if n ≤ s.length then some (s.take n, s.drop n) else none := by
  induction n generalizing s with
  | zero => rfl
  | succ n ih =>
    cases s with
    | nil => rfl
    | cons a s =>
      rw [splitExactly?, ih]
      simp only [List.length_cons, Nat.add_le_add_iff_right]
      split <;> rfl

theorem bytes_delimits (n : Nat) : SelfDelimiting (bytes n) := by
  intro s bs t h
  unfold bytes at h
  rw [splitExactly?_eq] at h
  split at h
  · next r hr =>
    cases h
    split at hr
    · next hn =>
      cases hr
      refine ⟨s.take n, (List.take_append_drop n s).symm, ?_, fun v w hvw hw => ⟨v, ?_⟩⟩
      · have hlength : (s.take n).length = n := by rw [List.length_take, Nat.min_eq_left hn]
        have hreads := bytes_reads (s.take n)
        rwa [hlength] at hreads
      · have hshort : ¬n ≤ v.length := by
          have hlength := congrArg List.length hvw
          rw [List.length_take, List.length_append, Nat.min_eq_left hn] at hlength
          have hpos := List.length_pos_of_ne_nil hw
          omega
        unfold bytes
        rw [splitExactly?_eq, if_neg hshort]
    · cases hr
  · cases h

/-- How many bytes a word has which begins with this byte. -/
def wordLength (a : UInt8) : Nat :=
  if a.toNat % 2 = 0 then 1 else if a.toNat % 4 = 1 then 2 else 4

/-- Too few bytes for the width which the first one tells. -/
theorem word_short {a : UInt8} {v : List UInt8} (h : (a :: v).length < wordLength a) :
    word (a :: v) = .error ⟨.endOfData, a :: v⟩ := by
  unfold wordLength at h
  unfold word
  simp only
  split at h
  · exact absurd h (by simp)
  · next hodd =>
    rw [if_neg hodd]
    split at h
    · next htwo =>
      rw [if_pos htwo]
      cases v with
      | nil => rfl
      | cons b v => exact absurd h (by simp)
    · next hfour =>
      rw [if_neg hfour]
      rcases v with _ | ⟨b, _ | ⟨c, _ | ⟨d, v⟩⟩⟩
      · rfl
      · rfl
      · rfl
      · exact absurd h (by simp)

/-- A word takes the bytes of its width. -/
theorem word_ok {s t : List UInt8} {w : Word} (h : word s = .ok (w, t)) :
    ∃ a u, s = a :: u ++ t ∧ (a :: u).length = wordLength a ∧ Reads word (a :: u) w := by
  cases s with
  | nil => cases h
  | cons a s =>
    unfold word at h
    simp only at h
    split at h
    · next hone =>
      cases h
      refine ⟨a, [], rfl, by rw [wordLength, if_pos hone]; rfl, fun rest => ?_⟩
      simp only [word, List.cons_append, List.nil_append, if_pos hone]
    · next hodd =>
      split at h
      · next htwo =>
        cases s with
        | nil => cases h
        | cons b s =>
          cases h
          refine ⟨a, [b], rfl, by rw [wordLength, if_neg hodd, if_pos htwo]; rfl, fun rest => ?_⟩
          simp only [word, List.cons_append, List.nil_append, if_neg hodd, if_pos htwo]
      · next hfour =>
        -- the three other bytes are missing in part, or they are there
        rcases s with _ | ⟨b, _ | ⟨c, _ | ⟨d, s⟩⟩⟩
        · cases h
        · cases h
        · cases h
        · cases h
          refine ⟨a, [b, c, d], rfl, by rw [wordLength, if_neg hodd, if_neg hfour]; rfl,
            fun rest => ?_⟩
          simp only [word, List.cons_append, List.nil_append, if_neg hodd, if_neg hfour]

theorem word_delimits : SelfDelimiting word := by
  intro s w t h
  obtain ⟨a, u, rfl, hlength, hreads⟩ := word_ok h
  refine ⟨a :: u, rfl, hreads, fun v x hvx hx => ⟨v, ?_⟩⟩
  cases v with
  | nil => rfl
  | cons b v =>
    rw [List.cons_append] at hvx
    obtain ⟨rfl, rfl⟩ := List.cons.inj hvx
    have hpos := List.length_pos_of_ne_nil hx
    refine word_short ?_
    rw [← hlength]
    simp only [List.length_cons, List.length_append]
    omega

theorem natural_delimits : SelfDelimiting natural := word_delimits.map _

theorem coordinate_delimits : SelfDelimiting coordinate := word_delimits.map _

theorem zeroToOne_delimits : SelfDelimiting zeroToOne := word_delimits.map _

theorem point_delimits : SelfDelimiting point :=
  coordinate_delimits.bind fun _ => coordinate_delimits.map _

/-! ## §3. Paths. -/

theorem arcOperands_delimits (frame : Frame) : SelfDelimiting (arcOperands frame) :=
  point_delimits.bind fun _ => zeroToOne_delimits.bind fun _ => natural_delimits.bind fun _ =>
    point_delimits.map _

theorem operands?_delimits {opcode : UInt8} {count : Nat} {p : Reading Instruction}
    (h : operands? opcode = some (count, p)) : SelfDelimiting p := by
  unfold operands? at h
  simp only at h
  split at h
  · cases h
    exact point_delimits.map _
  · split at h
    · cases h
      split
      · exact point_delimits.map _
      · exact point_delimits.bind fun _ => point_delimits.map _
      · exact point_delimits.bind fun _ => point_delimits.map _
      · exact point_delimits.bind fun _ => point_delimits.bind fun _ => point_delimits.map _
      · exact arcOperands_delimits _
    · split at h <;> cases h
      · exact .pure _
      · exact point_delimits.map _
      · exact point_delimits.map _
      · exact coordinate_delimits.map _
      · exact coordinate_delimits.map _
      · exact coordinate_delimits.map _
      · exact coordinate_delimits.map _

theorem run_delimits : SelfDelimiting run := by
  refine byte_delimits.bind fun opcode => ?_
  unfold runOperands
  split
  · next hp => exact (operands?_delimits hp).times _
  · exact .error _

theorem body_delimits : SelfDelimiting body := by
  -- `body` splits the result itself; as a sequence the lemmas above apply
  have hbody : body = (Scan.through run run_takes endsPath : Reading _) >>= fun runs =>
      Pure.pure runs.flatten := by
    funext s
    show _ = (Scan.through run run_takes endsPath s >>= fun x => Except.ok (x.1.flatten, x.2))
    unfold body
    split <;> simp [*, bind, Except.bind]
  rw [hbody]
  exact (run_delimits.through run_takes endsPath).map _

theorem outline_delimits : SelfDelimiting outline :=
  point_delimits.bind fun _ => body_delimits.map _

/-- The three bytes of a register setting. -/
theorem setting_delimits (adjustment : UInt8) : SelfDelimiting (fun s => match s with
    | a :: b :: c :: t => .ok (.register adjustment a b c, t)
    | _ => .error ⟨.endOfData, s⟩ : Reading Item) := by
  intro s i t h
  rcases s with _ | ⟨a, _ | ⟨b, _ | ⟨c, s⟩⟩⟩
  · cases h
  · cases h
  · cases h
  · cases h
    refine ⟨[a, b, c], rfl, fun _ => rfl, fun v w hvw hw => ⟨v, ?_⟩⟩
    rcases v with _ | ⟨x, _ | ⟨y, _ | ⟨z, v⟩⟩⟩
    · rfl
    · rfl
    · rfl
    · have hlength := congrArg List.length hvw
      have hpos := List.length_pos_of_ne_nil hw
      simp only [List.length_cons, List.length_append, List.length_nil] at hlength
      omega

theorem item_delimits : SelfDelimiting item := by
  refine byte_delimits.bind fun opcode => ?_
  unfold itemOf
  simp only
  split
  · exact setting_delimits _
  · split
    · exact outline_delimits.map _
    · exact .error _

/-! ## §4. The header. -/

theorem metadataOf_delimits (kind : UInt32) : SelfDelimiting (metadataOf kind) := by
  unfold metadataOf
  split
  · exact coordinate_delimits.bind fun _ => coordinate_delimits.bind fun _ =>
      coordinate_delimits.bind fun _ => coordinate_delimits.map _
  · split
    · exact byte_delimits.bind fun layout => ((bytes_delimits _).times _).map _
    · exact .error _

/-- A chunk is counted by what it takes, not by what follows it. -/
theorem metadata_delimits : SelfDelimiting metadata := by
  refine natural_delimits.bind fun length => ?_
  have hdata : SelfDelimiting (do metadataOf (← natural) : Reading Metadata) :=
    natural_delimits.bind metadataOf_delimits
  -- the count compares two lengths, and what follows adds the same to both
  intro s m t h
  simp only at h
  split at h
  · cases h
  · next m' r hread =>
    split at h
    · next hcount =>
      cases h
      obtain ⟨u, rfl, hu⟩ := hdata s m t hread
      refine ⟨u, rfl, fun rest => ?_, fun v w huv hw => ?_⟩
      · have hlength : (u ++ rest).length = rest.length + length.toNat := by
          rw [List.length_append] at hcount ⊢
          omega
        simp only [hu.reads rest, if_pos hlength]
      · obtain ⟨rest, hrest⟩ := hu.starves v w huv hw
        exact ⟨rest, by simp only [hrest]⟩
    · cases h

theorem magicBytes_delimits : SelfDelimiting magicBytes := by
  refine (bytes_delimits 4).bind fun found => ?_
  split
  · exact .pure _
  · exact .error _

theorem header_delimits : SelfDelimiting header :=
  magicBytes_delimits.bind fun _ => natural_delimits.bind fun _ => metadata_delimits.times _

/-! ## §5. Items up to the end. -/

section

variable {α : Type} {p : Reading α} (htakes : Scan.Takes p)

/-- An item at the front, and others up to the end. -/
theorem toEnd_cons_item {u t : List UInt8} {a : α} (hu : Reads p u a) :
    Scan.toEnd p htakes (u ++ t) = (Scan.toEnd p htakes t).map (a :: ·) := by
  obtain ⟨b, u', rfl⟩ := List.exists_cons_of_ne_nil (hu.ne_nil htakes)
  have hread := hu t
  rw [List.cons_append] at hread ⊢
  rw [Scan.toEnd_cons, hread]
  simp only
  cases Scan.toEnd p htakes t <;> rfl

/-- **Items which are cut** lack data, or they are cut between two of them. -/
theorem toEnd_cut (hp : SelfDelimiting p) {s v w : List UInt8} {items : List α}
    (h : Scan.toEnd p htakes s = .ok items) (hs : s = v ++ w) :
    (∃ rest, Scan.toEnd p htakes v = .error ⟨.endOfData, rest⟩) ∨
      ∃ kept lost, Scan.toEnd p htakes v = .ok kept ∧ Scan.toEnd p htakes w = .ok lost ∧
        items = kept ++ lost := by
  -- the recursion of the reader: the end, two faults, and one more item
  fun_induction Scan.toEnd p htakes s generalizing items v with
  | case1 s hempty =>
    cases h
    obtain rfl := List.isEmpty_iff.1 hempty
    obtain ⟨rfl, rfl⟩ := List.append_eq_nil_iff.1 hs.symm
    exact .inr ⟨[], [], Scan.toEnd_nil p htakes, Scan.toEnd_nil p htakes, rfl⟩
  | case2 => cases h
  | case3 => cases h
  | case4 s _ a t hread as hmore ih =>
    cases h
    obtain ⟨u, rfl, hu⟩ := hp s a t hread
    have hwhole := toEnd_cons_item htakes (t := t) hu.reads
    rw [hmore] at hwhole
    rcases List.append_eq_append_cases hs with ⟨x, hx, hux, rfl⟩ | ⟨v', rfl, ht⟩
    · -- nothing of the item is kept, which is an end, or a part of it
      cases v with
      | nil =>
        obtain rfl : u = x := hux
        exact .inr ⟨[], a :: as, Scan.toEnd_nil p htakes, hwhole, rfl⟩
      | cons b v =>
        obtain ⟨rest, hrest⟩ := hu.starves (b :: v) x hux hx
        exact .inl ⟨rest, by rw [Scan.toEnd_cons, hrest]⟩
    · rw [toEnd_cons_item htakes hu.reads]
      rcases ih hmore ht with ⟨rest, hrest⟩ | ⟨kept, lost, hkept, hlost, rfl⟩
      · exact .inl ⟨rest, by rw [hrest]; rfl⟩
      · exact .inr ⟨a :: kept, lost, by rw [hkept]; rfl, hlost, rfl⟩

/-- **Items go on with other items.** -/
theorem toEnd_append (hp : SelfDelimiting p) {s t : List UInt8} {items more : List α}
    (h : Scan.toEnd p htakes s = .ok items) (ht : Scan.toEnd p htakes t = .ok more) :
    Scan.toEnd p htakes (s ++ t) = .ok (items ++ more) := by
  fun_induction Scan.toEnd p htakes s generalizing items with
  | case1 s hempty =>
    cases h
    obtain rfl := List.isEmpty_iff.1 hempty
    exact ht
  | case2 => cases h
  | case3 => cases h
  | case4 s _ a r hread as hmore ih =>
    cases h
    obtain ⟨u, rfl, hu⟩ := hp s a r hread
    rw [List.append_assoc, toEnd_cons_item htakes hu.reads, ih hmore]
    rfl

end

/-! ## §6. Icons. -/

/-- The first bytes of an icon without metadata. -/
def bareHeader : List UInt8 := magic ++ [0]

theorem bareHeader_reads : Reads header bareHeader [] := fun _ => rfl

/-- What is decoded behind a header. -/
theorem decode_items {front : List UInt8} {ms : List Metadata} (hfront : Reads header front ms)
    (rest : List UInt8) : decode (front ++ rest) =
      match Scan.toEnd item item_takes rest with
      | .ok items => .ok (Content.ofParts ⟨ms, items⟩)
      | .error f => .error ⟨f.cause, (front ++ rest).length - f.rest.length⟩ := by
  unfold decode readParts
  rw [hfront rest]
  simp only
  cases Scan.toEnd item item_takes rest <;> rfl

/-- An icon is a header and items. -/
theorem decode_ok {data : List UInt8} {content : Content} (h : decode data = .ok content) :
    ∃ front rest ms items, data = front ++ rest ∧ Spells header front ms ∧
      Scan.toEnd item item_takes rest = .ok items ∧ content = Content.ofParts ⟨ms, items⟩ := by
  cases hheader : header data with
  | error f =>
    unfold decode readParts at h
    rw [hheader] at h
    cases h
  | ok r =>
    obtain ⟨front, rfl, hfront⟩ := header_delimits data r.1 r.2 hheader
    rw [decode_items hfront.reads] at h
    split at h
    · next items hitems =>
      cases h
      exact ⟨front, r.2, r.1, items, rfl, hfront, hitems, rfl⟩
    · cases h

/-- What is decoded behind a header without metadata. -/
theorem decode_bare_iff {s : List UInt8} {content : Content} :
    decode (bareHeader ++ s) = .ok content ↔ ∃ items, Scan.toEnd item item_takes s = .ok items ∧
      content = Content.ofParts ⟨[], items⟩ := by
  rw [decode_items bareHeader_reads]
  cases Scan.toEnd item item_takes s <;> simp [eq_comm]

/-- **The beginning of an icon** either lacks data, or it is the icon with fewer
    registers and paths at the end: what was cut off, behind a header without
    metadata, is an icon with the missing ones.  **An icon goes on** with whatever is
    an icon behind such a header, and shows what both show. -/
theorem decode_cut {b : List UInt8} {icon : Content} (h : decode b = .ok icon) :
    (∀ p w, b = p ++ w →
      (∃ offset, decode p = .error ⟨.endOfData, offset⟩) ∨
        ∃ kept lost, decode p = .ok kept ∧ decode (bareHeader ++ w) = .ok lost ∧
          kept.viewBox = icon.viewBox ∧ kept.palette = icon.palette ∧
          icon.registers = kept.registers ++ lost.registers ∧
          icon.paths = kept.paths ++ lost.paths) ∧
      ∀ s tail, decode (bareHeader ++ s) = .ok tail →
        decode (b ++ s) = .ok ⟨icon.viewBox, icon.palette, icon.registers ++ tail.registers,
          icon.paths ++ tail.paths⟩ := by
  obtain ⟨front, rest, ms, items, rfl, hfront, hitems, rfl⟩ := decode_ok h
  refine ⟨fun p w hp => ?_, fun s tail htail => ?_⟩
  · rcases List.append_eq_append_cases hp with ⟨x, hx, hfx, -⟩ | ⟨v, rfl, hrest⟩
    · -- the header is not complete
      obtain ⟨r, hr⟩ := hfront.starves p x hfx hx
      refine .inl ⟨p.length - r.length, ?_⟩
      unfold decode readParts
      rw [hr]
    · rw [decode_items hfront.reads]
      rcases toEnd_cut item_takes item_delimits hitems hrest with
        ⟨r, hr⟩ | ⟨kept, lost, hkept, hlost, rfl⟩
      · rw [hr]
        exact .inl ⟨_, rfl⟩
      · rw [hkept]
        exact .inr ⟨_, _, rfl, decode_bare_iff.2 ⟨lost, hlost, rfl⟩, rfl, rfl,
          Content.registersOf_append kept lost, Content.pathsOf_append kept lost⟩
  · obtain ⟨more, hmore, rfl⟩ := decode_bare_iff.1 htail
    rw [List.append_assoc, decode_items hfront.reads, toEnd_append item_takes item_delimits hitems hmore]
    show Except.ok (Content.mk _ _ (Content.registersOf (items ++ more))
      (Content.pathsOf (items ++ more))) = _
    rw [Content.registersOf_append, Content.pathsOf_append]
    rfl

/-- A register setting, a path which is painted with it, and another path. -/
def twoPaths : List UInt8 :=
  bareHeader ++ [0xa1, 0x80, 0x7f, 0x80] ++ [0xc1, 0x80, 0x80, 0x00, 0x82, 0x84, 0xe1] ++
    [0xc0, 0x80, 0x80, 0xe6, 0x91, 0x80, 0xe1]

/-- Cut between the two paths, and cut within a number of the second one. -/
theorem decode_cut_twoPaths :
    ∃ icon, decode twoPaths = .ok icon ∧
      (∃ kept lost, decode (twoPaths.take 16) = .ok kept ∧
        decode (bareHeader ++ twoPaths.drop 16) = .ok lost ∧
        icon.registers = kept.registers ++ lost.registers ∧ icon.paths = kept.paths ++ lost.paths) ∧
      (∃ offset, decode (twoPaths.take 21) = .error ⟨.endOfData, offset⟩) ∧
      decode (twoPaths ++ twoPaths.drop 5) =
        .ok ⟨icon.viewBox, icon.palette, icon.registers ++ icon.registers, icon.paths ++ icon.paths⟩ := by
  obtain ⟨icon, hicon⟩ : ∃ icon, decode twoPaths = .ok icon := Except.exists_ok (by decide +kernel)
  have hkept : (decode (twoPaths.take 16)).toOption.isSome = true := by decide +kernel
  have hlacks : (decode (twoPaths.take 21)).toOption.isSome = false := by decide +kernel
  obtain ⟨hcut, hgoes⟩ := decode_cut hicon
  refine ⟨icon, hicon, ?_, ?_, hgoes _ icon hicon⟩
  · rcases hcut (twoPaths.take 16) (twoPaths.drop 16) (List.take_append_drop 16 _).symm with
      ⟨offset, herror⟩ | ⟨kept, lost, hk, hl, -, -, hregisters, hpaths⟩
    · rw [herror] at hkept
      cases hkept
    · exact ⟨kept, lost, hk, hl, hregisters, hpaths⟩
  · rcases hcut (twoPaths.take 21) (twoPaths.drop 21) (List.take_append_drop 21 _).symm with
      herror | ⟨kept, lost, hk, -⟩
    · exact herror
    · rw [hk] at hlacks
      cases hlacks

end Icon

end VectorIcon

/-
  VectorIcon.Proofs.Icon.InPlace
  ────────────────────────────────
  **OVERWRITING OPCODE BYTES IN ONE BUFFER LEAKS NOTHING.**

  A writer appends all paths to one buffer and raises the opcode byte of the open
  run, wherever it is, when an instruction joins it.  After any instructions the
  buffer holds what it held before and the bytes of these instructions, and the
  open run is the last of theirs (`Writer.Wrote`): an instruction joins the last
  run or begins one, and leaves all others as they are
  (`Run.ofInstructions_snoc`).  Hence every path is written as if it were alone:

      Writer.Wrote.put     — one instruction keeps buffer and run together
      Writer.path?_eq      — a path, after whatever is in the buffer
      Encoder.write?_eq    — one buffer for a whole drawing gives its icon
-/
import VectorIcon.Icon.Writer
import VectorIcon.Proofs.Icon.Layout

namespace VectorIcon

namespace Icon

/-! ## §1. Runs with one instruction more. -/

/-- How many instructions a run may have, by its opcode. -/
def Instruction.capacityOf (opcode : UInt8) : ℕ :=
  if opcode < 0x40 then 32 else if opcode < 0xe0 then 16 else 1

theorem Instruction.capacity_eq (i : Instruction) : i.capacity = capacityOf i.opcode := by
  cases i with
  | endPath => rfl
  | line f _ | smoothQuad f _ | quad f _ _ | smoothCubic f _ _ | cubic f _ _ _ | arc f _ _ _ _ _
  | horizontal f _ | vertical f _ | closeMove f _ => cases f <;> rfl

namespace Run

/-- Whether an instruction joins a run. -/
def Admits (r : Run) (i : Instruction) : Prop := r.head.opcode = i.opcode ∧ r.length < i.capacity

instance Admits.decidable (r : Run) (i : Instruction) : Decidable (r.Admits i) :=
  inferInstanceAs (Decidable (_ ∧ _))

/-- A run which admits an instruction is of a kind that has runs. -/
theorem Admits.room {r : Run} {i : Instruction} (h : r.Admits i) : r.head.capacity ≠ 1 := by
  obtain ⟨hopcode, hlength⟩ := h
  rw [Instruction.capacity_eq, hopcode, ← Instruction.capacity_eq]
  unfold Run.length at hlength
  omega

/-- A run admits what would be taken next. -/
theorem admits_iff {i j : Instruction} {is : List Instruction} :
    Admits ⟨j, is⟩ i ↔ i.opcode = j.opcode ∧ is.length < j.capacity - 1 := by
  show j.opcode = i.opcode ∧ is.length + 1 < i.capacity ↔ _
  rw [i.capacity_eq, j.capacity_eq]
  constructor
  · rintro ⟨hop, hlen⟩
    rw [hop]
    exact ⟨rfl, by omega⟩
  · rintro ⟨hop, hlen⟩
    rw [hop]
    exact ⟨rfl, by omega⟩

theorem ofInstructions_single (i : Instruction) : ofInstructions [i] = [⟨i, []⟩] := by
  rw [ofInstructions]
  cases i.capacity - 1 <;> exact congrArg _ ofInstructions.eq_1

/-- There is a run as soon as there is an instruction. -/
theorem eq_nil_of_ofInstructions {is : List Instruction} (h : ofInstructions is = []) : is = [] := by
  rw [← ofInstructions_flatMap is, h]
  rfl

/-- The bytes of a run with one instruction more. -/
theorem bytes_snoc (r : Run) {i : Instruction} (h : r.head.opcode = i.opcode) :
    (⟨r.head, r.tail ++ [i]⟩ : Run).bytes = (i.opcode + UInt8.ofNat r.length) ::
      (r.instructions.flatMap Instruction.operandBytes ++ i.operandBytes) := by
  unfold Run.bytes Run.opcode Run.instructions Run.length
  rw [List.length_append, h, ← List.cons_append, List.flatMap_append, List.flatMap_singleton]
  rfl

/-- One instruction more is taken only if all others are. -/
theorem take_snoc (opcode : UInt8) (room : ℕ) (is : List Instruction) (i : Instruction) :
    take opcode room (is ++ [i]) =
      if (take opcode room is).2 = [] then
        if i.opcode = opcode ∧ is.length < room then (is ++ [i], []) else (is, [i])
      else ((take opcode room is).1, (take opcode room is).2 ++ [i]) := by
  induction is generalizing room with
  | nil =>
    cases room with
    | zero =>
      show ([], [i]) = if i.opcode = opcode ∧ 0 < 0 then ([i], []) else ([], [i])
      rw [if_neg fun hi => Nat.lt_irrefl 0 hi.2]
    | succ room =>
      show take opcode (room + 1) [i] = if i.opcode = opcode ∧ 0 < room + 1 then ([i], []) else ([], [i])
      unfold take
      by_cases h : i.opcode = opcode
      · rw [if_pos h, if_pos ⟨h, Nat.succ_pos room⟩]
        cases room <;> rfl
      · rw [if_neg h, if_neg fun hi => h hi.1]
  | cons j is ih =>
    cases room with
    | zero => rfl
    | succ room =>
      by_cases h : j.opcode = opcode
      · have hstep (js : List Instruction) : take opcode (room + 1) (j :: js) =
            (j :: (take opcode room js).1, (take opcode room js).2) := by
          rw [take, if_pos h]
        rw [List.cons_append, hstep, hstep, ih]
        simp only [List.length_cons, Nat.add_lt_add_iff_right]
        split
        · split <;> rfl
        · rfl
      · have hstep (js : List Instruction) : take opcode (room + 1) (j :: js) = ([], j :: js) := by
          rw [take, if_neg h]
        rw [List.cons_append, hstep, hstep, if_neg (List.cons_ne_nil j is)]
        rfl

/-- **An instruction joins the last run or begins one**, and leaves all others
    as they are. -/
theorem ofInstructions_snoc (is : List Instruction) (i : Instruction) :
    ∀ {rs : List Run} {r : Run}, ofInstructions is = rs ++ [r] →
      ofInstructions (is ++ [i]) =
        if r.Admits i then rs ++ [⟨r.head, r.tail ++ [i]⟩] else rs ++ [r, ⟨i, []⟩] := by
  -- the induction takes the first run off; the last one is reached when nothing is left
  fun_induction ofInstructions is with
  | case1 =>
    intro rs r h
    simp at h
  | case2 j is split =>
    rename_i ih
    intro rs r h
    rw [List.cons_append, ofInstructions, take_snoc]
    by_cases hleft : split.2 = []
    · -- the first run is the last one
      have hall : split.1 = is := by
        have hsplit := take_append j.opcode (j.capacity - 1) is
        rw [show (take j.opcode (j.capacity - 1) is).2 = [] from hleft, List.append_nil] at hsplit
        exact hsplit
      rw [hleft, ofInstructions, hall] at h
      obtain ⟨rfl, hr⟩ : rs = [] ∧ r = ⟨j, is⟩ := by
        cases rs with
        | nil => exact ⟨rfl, (List.cons.inj h).1.symm⟩
        | cons _ rs => simp at h
      subst hr
      rw [if_pos (show (take j.opcode (j.capacity - 1) is).2 = [] from hleft)]
      by_cases hadmits : Admits ⟨j, is⟩ i
      · rw [if_pos (admits_iff.1 hadmits), if_pos hadmits]
        simp only
        rw [ofInstructions]
        rfl
      · rw [if_neg fun hi => hadmits (admits_iff.2 hi), if_neg hadmits]
        simp only
        rw [ofInstructions_single]
        rfl
    · -- the first run is complete, the others gain the instruction
      obtain ⟨rs', rfl⟩ : ∃ rs', rs = ⟨j, split.1⟩ :: rs' := by
        cases rs with
        | nil => exact absurd (eq_nil_of_ofInstructions (List.cons.inj h).2) hleft
        | cons r' rs' => exact ⟨rs', congrArg (· :: rs') (List.cons.inj h).1.symm⟩
      have hrest := ih (List.cons.inj h).2
      rw [if_neg (show ¬ (take j.opcode (j.capacity - 1) is).2 = [] from hleft)]
      simp only
      rw [show (take j.opcode (j.capacity - 1) is).2 = split.2 from rfl, hrest]
      split <;> rfl

end Run

/-! ## §2. One buffer. -/

/-- The byte at an index is overwritten. -/
theorem Buffer.set?_append {b : Buffer} {before after : List UInt8} {byte : UInt8}
    (h : b.bytes = before ++ byte :: after) (new : UInt8) :
    b.set? before.length new = some ⟨before ++ new :: after⟩ := by
  have hlt : before.length < b.bytes.length := by
    rw [h, List.length_append, List.length_cons]
    omega
  unfold Buffer.set? Buffer.size
  rw [if_pos hlt, h, List.set_append_right before.length new (Nat.le_refl _), Nat.sub_self]
  rfl

namespace Writer

/-- **What a writer has done**: after what was in the buffer stand the bytes of the
    instructions, and the last of their runs is the open one. -/
structure Wrote (b : Buffer) (is : List Instruction) (w : Writer) : Prop where
  bytes : w.buffer.bytes = b.bytes ++ instructionBytes is
  fresh : is = [] → w.run = none
  run : ∀ {rs r}, Run.ofInstructions is = rs ++ [r] → w.run =
    if r.head.capacity = 1 then none
    else some ⟨r.head.opcode, b.size + (rs.flatMap Run.bytes).length, r.length⟩

namespace Wrote

variable {b : Buffer} {is : List Instruction} {w : Writer}

/-- Nothing is written yet. -/
theorem nothing (b : Buffer) (pen : Pen) : Wrote b [] ⟨b, pen, none⟩ where
  bytes := by
    unfold instructionBytes
    rw [Run.ofInstructions]
    exact (List.append_nil _).symm
  fresh _ := rfl
  run := by
    intro rs r h
    rw [Run.ofInstructions] at h
    simp at h

/-- The pen has no part in it. -/
theorem turn (h : Wrote b is w) (pen : Pen) : Wrote b is { w with pen := pen } :=
  ⟨h.bytes, h.fresh, h.run⟩

theorem begin {i : Instruction} (h : Wrote b is w)
    (hruns : Run.ofInstructions (is ++ [i]) = Run.ofInstructions is ++ [⟨i, []⟩]) :
    Wrote b (is ++ [i]) (w.begin i) where
  bytes := by
    have hopcode : (⟨i, []⟩ : Run).opcode = i.opcode := UInt8.add_zero _
    unfold instructionBytes
    rw [hruns, List.flatMap_append]
    show w.buffer.bytes ++ [i.opcode] ++ i.operandBytes =
      _ ++ (_ ++ ((⟨i, []⟩ : Run).opcode :: (i.operandBytes ++ []) ++ []))
    rw [h.bytes, hopcode, List.append_nil, List.append_nil, List.append_assoc, List.append_assoc]
    rfl
  fresh hnil := absurd hnil (List.append_ne_nil_of_right_ne_nil _ (List.cons_ne_nil _ _))
  run := by
    intro rs r hlast
    obtain ⟨rfl, hr⟩ := List.append_inj' (hruns.symm.trans hlast) rfl
    obtain rfl := (List.cons.inj hr).1
    have hindex : w.buffer.size = b.size + (instructionBytes is).length := by
      unfold Buffer.size
      rw [h.bytes, List.length_append]
    show (if i.capacity = 1 then none else some _) = _
    rw [hindex]
    rfl

theorem join {i : Instruction} {rs : List Run} {r : Run} (h : Wrote b is w)
    (hlast : Run.ofInstructions is = rs ++ [r]) (hadmits : r.Admits i) :
    ∃ w', w.join? ⟨r.head.opcode, b.size + (rs.flatMap Run.bytes).length, r.length⟩ i = some w' ∧
      Wrote b (is ++ [i]) w' ∧ w'.pen = w.pen := by
  have hruns := Run.ofInstructions_snoc is i hlast
  rw [if_pos hadmits] at hruns
  -- the opcode byte of the last run stands where the run says
  have hbytes : w.buffer.bytes = (b.bytes ++ rs.flatMap Run.bytes) ++
      r.opcode :: r.instructions.flatMap Instruction.operandBytes := by
    rw [h.bytes, instructionBytes, hlast, List.flatMap_append, List.flatMap_singleton,
      List.append_assoc]
    rfl
  have hset := Buffer.set?_append hbytes (i.opcode + UInt8.ofNat r.length)
  rw [List.length_append] at hset
  have hjoin : w.join? ⟨r.head.opcode, b.size + (rs.flatMap Run.bytes).length, r.length⟩ i =
      some ⟨Buffer.append ⟨(b.bytes ++ rs.flatMap Run.bytes) ++
          (i.opcode + UInt8.ofNat r.length) :: r.instructions.flatMap Instruction.operandBytes⟩
            i.operandBytes, w.pen,
        some ⟨r.head.opcode, b.size + (rs.flatMap Run.bytes).length, r.length + 1⟩⟩ := by
    unfold join?
    rw [show b.size = b.bytes.length from rfl, hset]
    rfl
  refine ⟨_, hjoin, ⟨?_, ?_, ?_⟩, rfl⟩
  · -- the longer run begins with the byte which was written over
    rw [instructionBytes, hruns, List.flatMap_append, List.flatMap_singleton, r.bytes_snoc hadmits.1]
    unfold Buffer.append
    rw [List.append_assoc, List.append_assoc]
    rfl
  · exact fun hnil => absurd hnil (List.append_ne_nil_of_right_ne_nil _ (List.cons_ne_nil _ _))
  · intro rs' r' hlast'
    obtain ⟨rfl, hr⟩ := List.append_inj' (hruns.symm.trans hlast') rfl
    obtain rfl := (List.cons.inj hr).1
    rw [if_neg hadmits.room]
    unfold Run.length
    rw [List.length_append]
    rfl

/-- **One instruction more.**  The byte which is overwritten is the opcode of the
    open run. -/
theorem put (h : Wrote b is w) (i : Instruction) :
    ∃ w', w.put? i = some w' ∧ Wrote b (is ++ [i]) w' ∧ w'.pen = w.pen := by
  rcases List.eq_nil_or_concat' (Run.ofInstructions is) with hnone | ⟨rs, r, hlast⟩
  · -- the first run of all
    have hnil := Run.eq_nil_of_ofInstructions hnone
    refine ⟨w.begin i, ?_, h.begin ?_, rfl⟩
    · unfold put?
      rw [h.fresh hnil]
    · rw [hnone, hnil, List.nil_append, List.nil_append, Run.ofInstructions_single]
  · by_cases hadmits : r.Admits i
    · obtain ⟨w', hjoin, hwrote⟩ := h.join hlast hadmits
      refine ⟨w', ?_, hwrote⟩
      unfold put?
      rw [h.run hlast, if_neg hadmits.room]
      exact (if_pos hadmits).trans hjoin
    · have hruns := Run.ofInstructions_snoc is i hlast
      rw [if_neg hadmits] at hruns
      refine ⟨w.begin i, ?_, h.begin ?_, rfl⟩
      · unfold put?
        rw [h.run hlast]
        by_cases hroom : r.head.capacity = 1
        · rw [if_pos hroom]
        · rw [if_neg hroom]
          exact if_neg hadmits
      · rw [hruns, hlast, List.append_assoc]
        rfl

/-- **Instructions in a row.** -/
theorem putAll (h : Wrote b is w) (js : List Instruction) :
    ∃ w', js.foldlM put? w = some w' ∧ Wrote b (is ++ js) w' ∧ w'.pen = w.pen := by
  induction js generalizing is w with
  | nil =>
    rw [List.append_nil]
    exact ⟨w, rfl, h, rfl⟩
  | cons j js ih =>
    obtain ⟨w', hput, hwrote, hpen⟩ := h.put j
    obtain ⟨w'', hrest, hwrote', hpen'⟩ := ih hwrote
    rw [List.append_assoc] at hwrote'
    exact ⟨w'', by rw [List.foldlM_cons, hput]; exact hrest, hwrote', hpen'.trans hpen⟩

/-- **The commands of a path**, with the pen passed on. -/
theorem commands (h : Wrote b is w) (t : Transform) (cs : List Command) :
    ∃ w', cs.foldlM (command? t) w = some w' ∧ Wrote b (is ++ w.pen.drawAll t cs) w' := by
  induction cs generalizing is w with
  | nil =>
    show ∃ w', _ ∧ Wrote b (is ++ []) w'
    rw [List.append_nil]
    exact ⟨w, rfl, h⟩
  | cons c cs ih =>
    obtain ⟨w', hcommand, hwrote, hpen⟩ := (h.turn (w.pen.step t c).2).putAll (w.pen.step t c).1
    obtain ⟨w'', hrest, hwrote'⟩ := ih hwrote
    refine ⟨w'', by rw [List.foldlM_cons, command?, hcommand]; exact hrest, ?_⟩
    rw [hpen, List.append_assoc] at hwrote'
    exact hwrote'

end Wrote

/-- **A path is written as if the buffer were its own.** -/
theorem path?_eq {t : Transform} {cs : List Command} {o : Outline}
    (ho : Outline.ofCommands? t cs = some o) (b : Buffer) (adjustment : UInt8) :
    path? t b adjustment cs = some (b.append (o.bytes adjustment)) := by
  match cs, ho with
  | .moveTo f target :: cs, ho =>
    cases ho
    obtain ⟨w, hcommands, hwrote⟩ := (Wrote.nothing
      ((b.push (0xc0 ||| adjustment)).append (pointBytes (quantize (t.apply target))))
      (.startingAt (quantize (t.apply target)))).commands t cs
    obtain ⟨w', hend, hwrote', -⟩ := hwrote.put .endPath
    have hbuffer : w'.buffer = b.append (Outline.bytes adjustment
        ⟨quantize (t.apply target), (Pen.startingAt (quantize (t.apply target))).drawAll t cs ++ [.endPath]⟩) := by
      have hbytes := hwrote'.bytes
      have hsplit : (b.bytes ++ [0xc0 ||| adjustment] ++ pointBytes (quantize (t.apply target))) ++
          instructionBytes ((Pen.startingAt (quantize (t.apply target))).drawAll t cs ++ [.endPath]) =
          b.bytes ++ ((0xc0 ||| adjustment) :: (pointBytes (quantize (t.apply target)) ++
            instructionBytes ((Pen.startingAt (quantize (t.apply target))).drawAll t cs ++ [.endPath]))) := by
        rw [List.append_assoc, List.append_assoc]
        rfl
      exact congrArg Buffer.mk (hbytes.trans hsplit)
    unfold path?
    simp only
    rw [hcommands]
    show (w.put? .endPath >>= fun w => some w.buffer) = _
    rw [hend, ← hbuffer]
    rfl

/-- **Paths are written one after the other**, each as if it were alone. -/
theorem paths?_eq (t : Transform) (r : Registers) (b : Buffer) (count : ℕ) (ps : List PathElement) :
    paths? t r b count ps =
      some ((Encoder.groups t r ps).map fun gs => (count + gs.length, b.append gs.flatten)) := by
  induction ps generalizing r b count with
  | nil =>
    show some (Except.ok (count, b)) = some (Except.ok (count + 0, b.append []))
    unfold Buffer.append
    rw [List.append_nil]
    rfl
  | cons p ps ih =>
    match hparse : Path.parse p.data with
    | .error f =>
      rw [paths?, Encoder.groups, hparse]
      rfl
    | .ok [] =>
      rw [paths?, hparse, Encoder.groups_empty hparse]
      exact ih r b count
    | .ok (c :: cs) =>
      obtain ⟨o, ho⟩ := exists_outline t hparse
      rw [paths?, hparse, Encoder.groups_outline hparse ho]
      simp only
      rw [path?_eq ho]
      show paths? t _ _ (count + 1) ps = _
      rw [ih]
      cases Encoder.groups t (r.select (opacityWeight p.paint.alpha)).2.2 ps with
      | error f => rfl
      | ok gs =>
        show some (Except.ok (count + 1 + gs.length, Buffer.mk (b.bytes ++ _ ++ _ ++ gs.flatten))) =
          some (Except.ok (count + (gs.length + 1), Buffer.mk (b.bytes ++ (_ ++ _ ++ gs.flatten))))
        rw [List.append_assoc, List.append_assoc, List.append_assoc, Nat.add_right_comm]
        rfl

end Writer

/-- **One buffer for the whole drawing gives the same icon**, and no overwriting
    fails. -/
theorem Encoder.write?_eq (e : Encoder) (d : Drawing) : e.write? d = some (e.encode d) := by
  unfold write? encode
  rw [Writer.paths?_eq]
  cases groups (Transform.fit d.canvas.viewBox e.outputSize) .empty d.paths with
  | error f => rfl
  | ok gs =>
    cases gs with
    | nil => rfl
    | cons g gs => rfl

end Icon

end VectorIcon

/-
  VectorIcon.Proofs.Icon.Runs
  ────────────────────────────────
  **RUNS OF INSTRUCTIONS ARE READ BACK, HOWEVER THEY WERE MERGED.**

  Instructions are written in runs, each as long as its opcode allows
  (`Run.ofInstructions`).  A run of instructions which share an opcode and fit
  its capacity is read back as those instructions (`Run.reads`), every run the
  writer makes is of that kind (`Run.ofInstructions_wellFormed`), and none is
  lost (`Run.ofInstructions_flatMap`).  Hence

      instructionBytes_toEnd   — the bytes of any instructions, read to their
                                 end, give the instructions
      body_reads               — the bytes of a body, up to and including the
                                 end of the path
      item_reads_path, item_reads_register
-/
import VectorIcon.Icon.Register
import VectorIcon.Proofs.Icon.Wire

namespace VectorIcon

namespace Icon

/-! ## §1. Repeated reading. -/

section

variable {α γ : Type} {p : Reading α} (hp : Scan.Takes p) {bytes : γ → List UInt8} {value : γ → α}

/-- A reader which takes something does not read an item of no bytes. -/
theorem Reads.ne_nil {bs : List UInt8} {a : α} (hp : Scan.Takes p) (h : Reads p bs a) : bs ≠ [] := by
  rintro rfl
  exact absurd (hp [] a [] (h [])) (Nat.lt_irrefl _)

/-- Items one after the other, up to the end of the bytes. -/
theorem toEnd_reads :
    ∀ items : List γ, (∀ i ∈ items, Reads p (bytes i) (value i)) →
      Scan.toEnd p hp (items.flatMap bytes) = .ok (items.map value)
  | [], _ => Scan.toEnd_nil p hp
  | i :: is, h => by
    have hi : Reads p (bytes i) (value i) := h i List.mem_cons_self
    have his := toEnd_reads is fun j hj => h j (List.mem_cons_of_mem i hj)
    have hread := hi (is.flatMap bytes)
    obtain ⟨b, bs, hb⟩ := List.exists_cons_of_ne_nil (hi.ne_nil hp)
    show Scan.toEnd p hp (bytes i ++ is.flatMap bytes) = .ok (value i :: is.map value)
    -- a reader to the end looks at the first byte before it reads an item
    rw [hb, List.cons_append] at hread ⊢
    rw [Scan.toEnd_cons, hread]
    simp only
    rw [his]

/-- Items one after the other, up to the first which is the last. -/
theorem through_reads {isLast : α → Bool} {lastBytes : List UInt8} {last : α}
    (hlast : Reads p lastBytes last) (hl : isLast last = true) (rest : List UInt8) :
    ∀ items : List γ, (∀ i ∈ items, Reads p (bytes i) (value i)) →
      (∀ i ∈ items, isLast (value i) = false) →
      Scan.through p hp isLast (items.flatMap bytes ++ (lastBytes ++ rest)) =
        .ok (items.map value ++ [last], rest)
  | [], _, _ => by
    show Scan.through p hp isLast (lastBytes ++ rest) = .ok ([last], rest)
    rw [Scan.through_eq, hlast rest]
    simp only
    rw [if_pos hl]
  | i :: is, h, hn => by
    have hi := h i List.mem_cons_self
    have his := through_reads hlast hl rest is (fun j hj => h j (List.mem_cons_of_mem i hj))
      fun j hj => hn j (List.mem_cons_of_mem i hj)
    show Scan.through p hp isLast (bytes i ++ is.flatMap bytes ++ (lastBytes ++ rest)) = _
    rw [List.append_assoc, Scan.through_eq, hi]
    simp only
    rw [if_neg (by rw [hn i List.mem_cons_self]; exact Bool.false_ne_true), his]
    rfl

end

/-! ## §2. Runs. -/

namespace Run

/-- The instructions share an opcode and are no more than its capacity. -/
structure WellFormed (r : Run) : Prop where
  opcode_eq : ∀ i ∈ r.tail, i.opcode = r.head.opcode
  fits : r.tail.length < r.head.capacity

/-- **A run is read back** as its instructions. -/
theorem reads {r : Run} (h : r.WellFormed) :
    Reads run r.bytes (r.instructions.map Instruction.recovered) := by
  -- all instructions of a run are read as the first of them is
  have hall : ∀ i ∈ r.instructions, Reads r.head.reader i.operandBytes i.recovered := by
    intro i hi
    rcases List.mem_cons.1 hi with rfl | hi
    · exact r.head.reader_reads
    · rw [← Instruction.reader_eq_of_opcode_eq (h.opcode_eq i hi)]
      exact i.reader_reads
  have hoperands : runOperands r.opcode = Scan.times r.head.reader r.instructions.length := by
    unfold runOperands
    rw [show operands? r.opcode = _ from Instruction.operands?_opcode r.head h.fits]
    rfl
  refine (byte_reads r.opcode).bind ?_
  rw [hoperands]
  exact Reads.times _ _ r.instructions hall

/-- Only instructions with the opcode are taken. -/
theorem take_opcode (opcode : UInt8) (room : Nat) (is : List Instruction) :
    ∀ i ∈ (take opcode room is).1, i.opcode = opcode := by
  fun_induction take opcode room is with
  | case1 room i is h taken rest heq ih =>
    intro j hj
    rcases List.mem_cons.1 hj with rfl | hj
    · exact h
    · rw [heq] at ih
      exact ih j hj
  | case2 => intro i hi; cases hi
  | case3 => intro i hi; cases hi

/-- Every run the writer makes is well formed. -/
theorem ofInstructions_wellFormed (is : List Instruction) : ∀ r ∈ ofInstructions is, r.WellFormed := by
  -- the first run takes what it may, the induction does the rest
  fun_induction ofInstructions is with
  | case1 => intro r hr; cases hr
  | case2 i is split ih =>
    intro r hr
    rcases List.mem_cons.1 hr with rfl | hr
    · refine ⟨take_opcode i.opcode _ is, ?_⟩
      have hlen := take_length_le i.opcode (i.capacity - 1) is
      have hroom := i.capacity_pos
      show (take i.opcode (i.capacity - 1) is).1.length < i.capacity
      omega
    · exact ih r hr

/-- The runs hold the instructions in order. -/
theorem ofInstructions_flatMap (is : List Instruction) :
    (ofInstructions is).flatMap instructions = is := by
  fun_induction ofInstructions is with
  | case1 => rfl
  | case2 i is split ih =>
    rw [List.flatMap_cons, ih]
    show i :: (split.1 ++ split.2) = i :: is
    rw [take_append]

end Run

/-! ## §3. Bodies and outlines. -/

/-- The runs which are read for the runs of instructions. -/
theorem flatten_map_recovered (is : List Instruction) :
    ((Run.ofInstructions is).map fun r => r.instructions.map Instruction.recovered).flatten =
      is.map Instruction.recovered := by
  rw [← List.flatMap_def, ← List.map_flatMap, Run.ofInstructions_flatMap]

theorem run_reads {is : List Instruction} {r : Run} (h : r ∈ Run.ofInstructions is) :
    Reads run r.bytes (r.instructions.map Instruction.recovered) :=
  Run.reads (Run.ofInstructions_wellFormed is r h)

/-- **Instructions are read back from their bytes**, to the end of the bytes. -/
theorem instructionBytes_toEnd (is : List Instruction) :
    ∃ runs, Scan.toEnd run run_takes (instructionBytes is) = .ok runs ∧
      runs.flatten = is.map Instruction.recovered :=
  ⟨_, toEnd_reads run_takes _ fun _ h => run_reads h, flatten_map_recovered is⟩

/-- No instruction ends the path. -/
def Unended (is : List Instruction) : Prop := ∀ i ∈ is, i.opcode ≠ Instruction.endPath.opcode

/-- What ends a path is never taken into the run before it. -/
theorem Run.take_endPath {opcode : UInt8} (h : opcode ≠ Instruction.endPath.opcode) (room : Nat)
    (is : List Instruction) :
    Run.take opcode room (is ++ [.endPath]) =
      ((Run.take opcode room is).1, (Run.take opcode room is).2 ++ [.endPath]) := by
  -- the induction is on the instructions; the room shrinks with each that is taken
  induction is generalizing room with
  | nil =>
    cases room with
    | zero => rfl
    | succ room =>
      show Run.take opcode (room + 1) [.endPath] = _
      rw [Run.take, if_neg (Ne.symm h)]
      rfl
  | cons i is ih =>
    cases room with
    | zero => rfl
    | succ room =>
      show Run.take opcode (room + 1) (i :: (is ++ [.endPath])) = _
      rw [Run.take, Run.take, ih]
      split <;> rfl

/-- The end of a path is a run of its own. -/
theorem Run.ofInstructions_endPath {is : List Instruction} (h : Unended is) :
    Run.ofInstructions (is ++ [.endPath]) = Run.ofInstructions is ++ [⟨.endPath, []⟩] := by
  fun_induction Run.ofInstructions is with
  | case1 =>
    show Run.ofInstructions [.endPath] = _
    rw [Run.ofInstructions]
    show _ :: Run.ofInstructions [] = _
    rw [Run.ofInstructions]
    rfl
  | case2 i is split ih =>
    have hi : i.opcode ≠ Instruction.endPath.opcode := h i List.mem_cons_self
    -- what the first run leaves is part of what there was
    have hrest : Unended split.2 := by
      intro j hj
      apply h j (List.mem_cons_of_mem i _)
      rw [← Run.take_append i.opcode (i.capacity - 1) is]
      exact List.mem_append_right _ hj
    show Run.ofInstructions (i :: (is ++ [.endPath])) = _
    rw [Run.ofInstructions]
    simp only [Run.take_endPath hi]
    rw [ih hrest]
    rfl

/-- A run which begins with an instruction that does not end the path is not the
    last one. -/
theorem endsPath_eq_false {r : Run} (h : r.head.opcode ≠ Instruction.endPath.opcode) :
    endsPath (r.instructions.map Instruction.recovered) = false := by
  obtain ⟨head, tail⟩ := r
  -- only a single instruction can be read as the end
  cases tail with
  | nil => cases head <;> first | rfl | exact absurd rfl h
  | cons i is => cases head <;> rfl

/-- **Runs are read as a body**, however the instructions are divided into them. -/
theorem runs_body_reads {rs : List Run} (hwell : ∀ r ∈ rs, r.WellFormed)
    (hends : ∀ r ∈ rs, r.head.opcode ≠ Instruction.endPath.opcode) :
    Reads body (rs.flatMap Run.bytes ++ [Instruction.endPath.opcode])
      ((rs.flatMap Run.instructions ++ [Instruction.endPath]).map Instruction.recovered) := by
  intro rest
  -- the last byte is a run of its own, and no run before it is taken for the last
  have hlast : Reads run [Instruction.endPath.opcode] [.endPath] :=
    Run.reads (r := ⟨.endPath, []⟩) ⟨by simp, by decide⟩
  have hthrough := through_reads run_takes hlast rfl rest rs
    (fun r hr => Run.reads (hwell r hr)) fun r hr => endsPath_eq_false (hends r hr)
  unfold body
  rw [List.append_assoc, hthrough]
  simp only
  rw [List.flatten_append, ← List.flatMap_def, ← List.map_flatMap, List.map_append]
  rfl

/-- **A body is read back**: its instructions up to and including the end of the
    path. -/
theorem body_reads {is : List Instruction} (h : Unended is) :
    Reads body (instructionBytes (is ++ [.endPath]))
      ((is ++ [Instruction.endPath]).map Instruction.recovered) := by
  have hbytes : instructionBytes (is ++ [.endPath]) =
      (Run.ofInstructions is).flatMap Run.bytes ++ [Instruction.endPath.opcode] := by
    unfold instructionBytes
    rw [Run.ofInstructions_endPath h, List.flatMap_append]
    rfl
  have hends : ∀ r ∈ Run.ofInstructions is, r.head.opcode ≠ Instruction.endPath.opcode := by
    intro r hr
    apply h
    rw [← Run.ofInstructions_flatMap is]
    exact List.mem_flatMap.2 ⟨r, hr, List.mem_cons_self⟩
  have hread := runs_body_reads (Run.ofInstructions_wellFormed is) hends
  rwa [Run.ofInstructions_flatMap, ← hbytes] at hread

/-- The outline whose coordinates are read in the given way. -/
def Outline.readAs (read : Scalar → Scalar) (o : Outline) : Outline :=
  ⟨o.start.map read, o.body.map (Instruction.readAs read)⟩

/-- The outline which is read for a written one. -/
def Outline.recovered : Outline → Outline := Outline.readAs recoverCoordinate

/-- An outline ends once, at its end. -/
def Outline.Ended (o : Outline) : Prop := ∃ is, Unended is ∧ o.body = is ++ [Instruction.endPath]

/-! ## §4. Items. -/

/-- An adjustment names the foreground or one of the registers. -/
def IsAdjustment (a : UInt8) : Prop := a.toNat ≤ registerCount

/-- The opcode byte of an item holds its adjustment in the lowest bits. -/
theorem opcode_adjustment {a : UInt8} (h : IsAdjustment a) :
    (0xa0 ||| a) &&& 7 = a ∧ 0xa0 ≤ 0xa0 ||| a ∧ 0xa0 ||| a ≤ 0xa6 ∧
      (0xc0 ||| a) &&& 7 = a ∧ 0xc0 ≤ 0xc0 ||| a ∧ 0xc0 ||| a ≤ 0xc6 := by
  -- there are seven adjustments
  have hall : ∀ n : Fin 7,
      let a := UInt8.ofNat n.val
      (0xa0 ||| a) &&& 7 = a ∧ 0xa0 ≤ 0xa0 ||| a ∧ 0xa0 ||| a ≤ 0xa6 ∧
        (0xc0 ||| a) &&& 7 = a ∧ 0xc0 ≤ 0xc0 ||| a ∧ 0xc0 ||| a ≤ 0xc6 := by decide
  have h := hall ⟨a.toNat, Nat.lt_succ_of_le h⟩
  rwa [UInt8.ofNat_toNat] at h

theorem item_reads_register {a : UInt8} (h : IsAdjustment a) (weight : UInt8) :
    Reads item (Registers.setBytes a weight) (.register a weight transparentByte firstPaletteByte) := by
  obtain ⟨ha, hlow, hhigh, -⟩ := opcode_adjustment h
  show Reads _ ([0xa0 ||| a] ++ [weight, transparentByte, firstPaletteByte]) _
  refine (byte_reads (0xa0 ||| a)).bind ?_
  unfold itemOf
  simp only
  rw [if_pos ⟨hlow, hhigh⟩, ha]
  exact fun rest => rfl

/-- A path is read from its start and its body. -/
theorem item_reads_body {a : UInt8} (h : IsAdjustment a) (start : Point) {bytes : List UInt8}
    {is : List Instruction} (hbody : Reads body bytes is) :
    Reads item ((0xc0 ||| a) :: (pointBytes start ++ bytes)) (.path a ⟨recoverPoint start, is⟩) := by
  obtain ⟨-, -, -, ha, hlow, hhigh⟩ := opcode_adjustment h
  have hstyle : ¬ (0xa0 ≤ 0xc0 ||| a ∧ 0xc0 ||| a ≤ 0xa6) := by
    rintro ⟨-, hle⟩
    rw [UInt8.le_iff_toNat_le] at hlow hle
    exact absurd (Nat.le_trans hlow hle) (by decide)
  have houtline : Reads outline (pointBytes start ++ bytes) ⟨recoverPoint start, is⟩ :=
    (point_reads start).bind (hbody.map (Outline.mk (recoverPoint start)))
  refine (byte_reads (0xc0 ||| a)).bind ?_
  unfold itemOf
  simp only
  rw [if_neg hstyle, if_pos ⟨hlow, hhigh⟩, ha]
  exact houtline.map (Item.path a)

theorem item_reads_path {a : UInt8} (h : IsAdjustment a) {o : Outline} (ho : o.Ended) :
    Reads item (o.bytes a) (.path a o.recovered) := by
  obtain ⟨is, his, hbody⟩ := ho
  have hread : Reads body (instructionBytes o.body) (o.body.map Instruction.recovered) := by
    rw [hbody]
    exact body_reads his
  exact item_reads_body h o.start hread

end Icon

end VectorIcon

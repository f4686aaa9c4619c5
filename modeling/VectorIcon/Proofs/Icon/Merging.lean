/-
  VectorIcon.Proofs.Icon.Merging
  ────────────────────────────────
  **MERGING INSTRUCTIONS INTO RUNS LOSES NOTHING AND MISSES NOTHING.**

  Instructions which share an opcode are written in runs, a run under one opcode
  byte which counts them.  A reader does not see where the runs are: the path is
  the same if every instruction has an opcode byte of its own.

      Run.ofInstructions_fills    — only a full run is followed by one of its opcode
      Run.ofInstructions_append   — runs do not cross a change of the opcode
      Run.ofInstructions_length   — instructions of one opcode in as few runs as fit
      item_reads_unrolled         — the path is read back without its runs
      Writer.Wrote.tracks         — what is overwritten is the opcode of the open run

  The open run of a writer is the last run of the instructions so far
  (`Writer.Wrote`), which is why its opcode byte stands where the writer believes
  it, and why raising it by one never makes another opcode of it.
-/
import Mathlib.Algebra.Order.Floor.Div
import VectorIcon.Proofs.Icon.InPlace
import VectorIcon.Proofs.Icon.Tracking

namespace VectorIcon

namespace Icon

/-! ## §1. Runs are as long as possible. -/

namespace Run

/-- A run which another one of the same opcode follows is full. -/
def Fills (r s : Run) : Prop := s.head.opcode = r.head.opcode → r.length = r.head.capacity

/-- Taking stops at another opcode, or for want of room. -/
theorem take_stops {opcode : UInt8} {room : ℕ} {is js : List Instruction} {j : Instruction}
    (h : (take opcode room is).2 = j :: js) (hj : j.opcode = opcode) :
    (take opcode room is).1.length = room := by
  fun_induction take opcode room is with
  | case1 room i is hi taken rest heq ih =>
    rw [heq] at ih
    exact congrArg (· + 1) (ih h)
  | case2 room i is hi =>
    obtain ⟨rfl, -⟩ := List.cons.inj h
    exact absurd hj hi
  | case3 room is hnone =>
    cases room with
    | zero => rfl
    | succ room => exact absurd h (hnone room j js rfl)

/-- **Runs are maximal**: only a full one is followed by one of its own opcode. -/
theorem ofInstructions_fills (is : List Instruction) : (ofInstructions is).IsChain Fills := by
  fun_induction ofInstructions is with
  | case1 => exact .nil
  | case2 i is split ih =>
    cases hrest : split.2 with
    | nil =>
      rw [ofInstructions]
      exact .singleton _
    | cons j js =>
      rw [hrest] at ih
      rw [ofInstructions] at ih ⊢
      refine .cons_cons (fun hop => ?_) ih
      have hroom := take_stops hrest hop
      have hpos := i.capacity_pos
      show (take i.opcode (i.capacity - 1) is).1.length + 1 = i.capacity
      omega

/-! ## §2. Counting runs. -/

/-- The instructions do not go on with the opcode with which others end. -/
def Parted (is js : List Instruction) : Prop :=
  ∀ i ∈ is.getLast?, ∀ j ∈ js.head?, i.opcode ≠ j.opcode

/-- What follows a change of the opcode is not taken. -/
theorem take_parted {opcode : UInt8} {room : ℕ} {is js : List Instruction}
    (h : (take opcode room is).2 = [] → ∀ j ∈ js.head?, opcode ≠ j.opcode) :
    take opcode room (is ++ js) = ((take opcode room is).1, (take opcode room is).2 ++ js) := by
  fun_induction take opcode room is with
  | case1 room i is hi taken rest heq ih =>
    rw [heq] at ih
    rw [List.cons_append, take, if_pos hi, ih h]
  | case2 room i is hi => rw [List.cons_append, take, if_neg hi]
  | case3 room is hnone =>
    cases room with
    | zero => rfl
    | succ room =>
      cases is with
      | cons i is => exact absurd rfl (hnone room i is rfl)
      | nil =>
        cases js with
        | nil => rfl
        | cons j js => exact if_neg (Ne.symm (h rfl j rfl))

/-- **Runs do not cross a change of the opcode.** -/
theorem ofInstructions_append {is js : List Instruction} (h : Parted is js) :
    ofInstructions (is ++ js) = ofInstructions is ++ ofInstructions js := by
  fun_induction ofInstructions is with
  | case1 => rfl
  | case2 i is split ih =>
    have hsplit : split.1 ++ split.2 = is := take_append i.opcode (i.capacity - 1) is
    have hopcode : ∀ k ∈ split.1, k.opcode = i.opcode := take_opcode i.opcode (i.capacity - 1) is
    have htake : take i.opcode (i.capacity - 1) (is ++ js) = (split.1, split.2 ++ js) := by
      refine take_parted fun hnil j hj hop => ?_
      -- all instructions have the opcode, the last one too
      have hall : split.1 = is := by
        rw [← hsplit, show split.2 = [] from hnil, List.append_nil]
      have hlast := List.getLast_mem (List.cons_ne_nil i is)
      refine h _ (List.getLast?_eq_some_getLast (List.cons_ne_nil i is)) j hj (Eq.trans ?_ hop)
      rcases List.mem_cons.1 hlast with heq | hmem
      · rw [heq]
      · exact hopcode _ (hall ▸ hmem)
    have hparted : Parted split.2 js := by
      intro k hk j hj
      refine h k ?_ j hj
      rw [← hsplit, ← List.cons_append, List.getLast?_append, show split.2.getLast? = some k from hk]
      rfl
    rw [List.cons_append, ofInstructions, htake]
    simp only
    rw [ih hparted]
    rfl

/-- Of instructions with the opcode as many are taken as there is room for. -/
theorem take_uniform {opcode : UInt8} (room : ℕ) {is : List Instruction}
    (h : ∀ i ∈ is, i.opcode = opcode) : take opcode room is = (is.take room, is.drop room) := by
  induction is generalizing room with
  | nil => cases room <;> rfl
  | cons i is ih =>
    cases room with
    | zero => rfl
    | succ room =>
      rw [take, if_pos (h i List.mem_cons_self), ih room fun j hj => h j (List.mem_cons_of_mem i hj)]
      rfl

/-- **How many runs there are** of instructions with one opcode. -/
theorem ofInstructions_length {opcode : UInt8} {is : List Instruction}
    (h : ∀ i ∈ is, i.opcode = opcode) :
    (ofInstructions is).length = is.length ⌈/⌉ Instruction.capacityOf opcode := by
  fun_induction ofInstructions is with
  | case1 => simp
  | case2 i is split ih =>
    have hi := h i List.mem_cons_self
    have hpos := i.capacity_pos
    have hcap := i.capacity_eq
    rw [hi] at hcap
    have hsplit : split = (is.take (i.capacity - 1), is.drop (i.capacity - 1)) :=
      take_uniform (i.capacity - 1) fun j hj => (h j (List.mem_cons_of_mem i hj)).trans hi.symm
    have hrest := ih (by
      intro j hj
      rw [hsplit] at hj
      exact h j (List.mem_cons_of_mem i (List.mem_of_mem_drop hj)))
    rw [List.length_cons, hrest, hsplit, ← hcap]
    simp only [List.length_drop, List.length_cons, Nat.ceilDiv_eq_add_pred_div]
    rw [show is.length + 1 + i.capacity - 1 = is.length + i.capacity by omega,
      Nat.add_div_right _ hpos]
    rcases Nat.lt_or_ge is.length i.capacity with hlt | hge
    · -- one run takes all
      rw [Nat.div_eq_of_lt hlt, Nat.div_eq_of_lt (by omega)]
    · rw [show is.length - (i.capacity - 1) + i.capacity - 1 = is.length by omega]

end Run

/-! ## §3. One opcode byte for each instruction. -/

/-- The bytes of a run with an opcode byte before the operands of every instruction,
    that of a run of one. -/
def Run.unrolled (r : Run) : List UInt8 :=
  r.instructions.flatMap fun i => r.head.opcode :: i.operandBytes

/-- The bytes of a path without runs. -/
def Outline.unrolledBytes (adjustment : UInt8) (o : Outline) : List UInt8 :=
  (0xc0 ||| adjustment) :: (pointBytes o.start ++ (Run.ofInstructions o.body).flatMap Run.unrolled)

namespace Run

/-- The run of a single instruction. -/
def single (i : Instruction) : Run := ⟨i, []⟩

theorem single_wellFormed (i : Instruction) : (single i).WellFormed :=
  ⟨fun _ hj => absurd hj List.not_mem_nil, i.capacity_pos⟩

theorem single_bytes (i : Instruction) : (single i).bytes = i.opcode :: i.operandBytes := by
  show (i.opcode + 0) :: (i.operandBytes ++ []) = _
  rw [UInt8.add_zero, List.append_nil]

/-- Without runs there are runs of one. -/
theorem unrolled_eq {r : Run} (h : r.WellFormed) :
    r.unrolled = (r.instructions.map single).flatMap bytes := by
  unfold unrolled
  rw [List.flatMap_map]
  refine List.flatMap_congr fun i hi => ?_
  rw [single_bytes]
  rcases List.mem_cons.1 hi with rfl | hi
  · rfl
  · rw [h.opcode_eq i hi]

theorem flatMap_unrolled (is : List Instruction) :
    (ofInstructions is).flatMap unrolled = (is.map single).flatMap bytes := by
  conv_rhs => rw [← ofInstructions_flatMap is, List.map_flatMap, List.flatMap_assoc]
  exact List.flatMap_congr fun r hr => unrolled_eq (ofInstructions_wellFormed is r hr)

end Run

/-- **A body is read back without its runs.** -/
theorem unrolled_reads {is : List Instruction} (h : Unended is) :
    Reads body ((Run.ofInstructions (is ++ [.endPath])).flatMap Run.unrolled)
      ((is ++ [Instruction.endPath]).map Instruction.recovered) := by
  have hwell : ∀ r ∈ is.map Run.single, r.WellFormed := by
    intro r hr
    obtain ⟨i, -, rfl⟩ := List.mem_map.1 hr
    exact Run.single_wellFormed i
  have hends : ∀ r ∈ is.map Run.single, r.head.opcode ≠ Instruction.endPath.opcode := by
    intro r hr
    obtain ⟨i, hi, rfl⟩ := List.mem_map.1 hr
    exact h i hi
  have hread := runs_body_reads hwell hends
  have hinstructions : (is.map Run.single).flatMap Run.instructions = is := by
    rw [List.flatMap_map]
    exact List.flatMap_singleton' is
  rw [hinstructions] at hread
  rwa [Run.flatMap_unrolled, List.map_append, List.flatMap_append]

theorem item_reads_unrolled {a : UInt8} (h : IsAdjustment a) {o : Outline} (ho : o.Ended) :
    Reads item (o.unrolledBytes a) (.path a o.recovered) := by
  obtain ⟨is, his, hbody⟩ := ho
  have hread : Reads body ((Run.ofInstructions o.body).flatMap Run.unrolled)
      (o.body.map Instruction.recovered) := by
    rw [hbody]
    exact unrolled_reads his
  exact item_reads_body h o.start hread

/-! ## §4. The open run. -/

namespace Writer

/-- The writer after the start of a path. -/
def begun (b : Buffer) (adjustment : UInt8) (start : Point) : Writer :=
  ⟨(b.push (0xc0 ||| adjustment)).append (pointBytes start), .startingAt start, none⟩

/-- The same writer with another pen. -/
def withPen (pen : Pen) (w : Writer) : Writer := { w with pen := pen }

/-- Instructions are written without the pen. -/
theorem put?_withPen (w : Writer) (pen : Pen) (i : Instruction) :
    (w.withPen pen).put? i = (w.put? i).map (withPen pen) := by
  unfold put? withPen
  cases w.run with
  | none => rfl
  | some r =>
    simp only
    split
    · unfold join?
      simp only
      cases w.buffer.set? r.index (i.opcode + UInt8.ofNat r.count) <;> rfl
    · rfl

theorem foldlM_withPen (is : List Instruction) (w : Writer) (pen : Pen) :
    is.foldlM put? (w.withPen pen) = (is.foldlM put? w).map (withPen pen) := by
  induction is generalizing w with
  | nil => rfl
  | cons i is ih =>
    rw [List.foldlM_cons, List.foldlM_cons, put?_withPen]
    cases w.put? i with
    | none => rfl
    | some w' => exact ih w'

/-- Commands are written as all their instructions in a row. -/
theorem foldlM_command? (t : Transform) (cs : List Command) (w : Writer) :
    cs.foldlM (command? t) w =
      ((w.pen.drawAll t cs).foldlM put? w).map (withPen (w.pen.after t cs)) := by
  induction cs generalizing w with
  | nil => rfl
  | cons c cs ih =>
    have hcommand : command? t w c =
        ((w.pen.step t c).1.foldlM put? w).map (withPen (w.pen.step t c).2) :=
      foldlM_withPen _ w _
    rw [List.foldlM_cons, hcommand, Pen.drawAll, List.foldlM_append]
    cases (w.pen.step t c).1.foldlM put? w with
    | none => rfl
    | some w' =>
      refine (ih (w'.withPen (w.pen.step t c).2)).trans ?_
      rw [foldlM_withPen, Option.map_map]
      rfl

/-- **A path is written instruction by instruction.** -/
theorem path?_instructions {t : Transform} {cs : List Command} {o : Outline}
    (ho : Outline.ofCommands? t cs = some o) (b : Buffer) (adjustment : UInt8) :
    path? t b adjustment cs = (o.body.foldlM put? (begun b adjustment o.start)).map buffer := by
  match cs, ho with
  | .moveTo f target :: cs, ho =>
    cases ho
    show (cs.foldlM (command? t) (begun b adjustment (quantize (t.apply target))) >>= fun w =>
      w.put? .endPath >>= fun w => some w.buffer) = _
    generalize quantize (t.apply target) = start
    rw [foldlM_command?, List.foldlM_append]
    show _ = Option.map buffer
      (((Pen.startingAt start).drawAll t cs).foldlM put? (begun b adjustment start) >>= _)
    rw [show (begun b adjustment start).pen = .startingAt start from rfl]
    cases ((Pen.startingAt start).drawAll t cs).foldlM put? (begun b adjustment start) with
    | none => rfl
    | some w =>
      show ((w.withPen ((Pen.startingAt start).after t cs)).put? .endPath >>= fun w => some w.buffer) =
        ([Instruction.endPath].foldlM put? w).map buffer
      rw [put?_withPen, List.foldlM_cons]
      cases w.put? .endPath <;> rfl

end Writer

/-- **What a writer knows of its open run**: which instructions it has, where their
    bytes are, and that its opcode byte is read as such a run. -/
structure OpenRun.Tracks (r : OpenRun) (b : Buffer) (is : List Instruction) : Prop where
  count_eq : is.length = r.count
  count_pos : 0 < r.count
  opcode_eq : ∀ i ∈ is, i.opcode = r.opcode
  index_lt : r.index < b.size
  bytes_eq : b.bytes = b.bytes.take r.index ++
    (r.opcode + UInt8.ofNat (r.count - 1)) :: is.flatMap Instruction.operandBytes
  count_le : r.opcode < 0x40 ∧ r.count ≤ 32 ∨ 0x40 ≤ r.opcode ∧ r.opcode < 0xe0 ∧ r.count ≤ 16
  reads : ∃ p, operands? r.opcode = some (1, p) ∧
    operands? (r.opcode + UInt8.ofNat (r.count - 1)) = some (r.count, p)

/-- What is repeated, and how often. -/
theorem Instruction.capacity_cases {i : Instruction} (h : i.capacity ≠ 1) :
    i.opcode < 0x40 ∧ i.capacity = 32 ∨ 0x40 ≤ i.opcode ∧ i.opcode < 0xe0 ∧ i.capacity = 16 := by
  rw [capacity_eq] at h ⊢
  unfold capacityOf at *
  split at h
  · next hlines => exact .inl ⟨hlines, if_pos hlines⟩
  · next hlines =>
    split at h
    · next hcurves =>
      exact .inr ⟨UInt8.not_lt.1 hlines, hcurves, by rw [if_neg hlines, if_pos hcurves]⟩
    · exact absurd rfl h

/-- A run at the end of a buffer, as a writer knows it. -/
theorem Run.WellFormed.tracks {r : Run} (h : r.WellFormed) (hroom : r.head.capacity ≠ 1) {b : Buffer}
    {before : List UInt8} (hb : b.bytes = before ++ r.bytes) :
    OpenRun.Tracks ⟨r.head.opcode, before.length, r.length⟩ b r.instructions where
  count_eq := rfl
  count_pos := Nat.succ_pos _
  opcode_eq i hi := by
    rcases List.mem_cons.1 hi with rfl | hi
    · rfl
    · exact h.opcode_eq i hi
  index_lt := by
    show before.length < b.bytes.length
    rw [hb, List.length_append, Run.bytes, List.length_cons]
    omega
  bytes_eq := by
    show b.bytes = b.bytes.take before.length ++ _
    rw [hb, List.take_left]
    rfl
  count_le := by
    have hlength : r.length ≤ r.head.capacity := h.fits
    rcases Instruction.capacity_cases hroom with ⟨hop, hcap⟩ | ⟨hop, hop', hcap⟩
    · exact .inl ⟨hop, hcap ▸ hlength⟩
    · exact .inr ⟨hop, hop', hcap ▸ hlength⟩
  reads := by
    have hone := Instruction.operands?_opcode r.head r.head.capacity_pos
    rw [show r.head.opcode + UInt8.ofNat 0 = r.head.opcode from UInt8.add_zero _] at hone
    exact ⟨r.head.reader, hone, Instruction.operands?_opcode r.head h.fits⟩

namespace Writer

/-- **The open run is the last one of the instructions which were written.** -/
theorem Wrote.tracks {b : Buffer} {is : List Instruction} {w : Writer} (h : Wrote b is w) {r : OpenRun}
    (hr : w.run = some r) : ∃ before run, is = before ++ run ∧ r.Tracks w.buffer run := by
  rcases List.eq_nil_or_concat' (Run.ofInstructions is) with hnone | ⟨rs, last, hlast⟩
  · rw [h.fresh (Run.eq_nil_of_ofInstructions hnone)] at hr
    cases hr
  · rw [h.run hlast] at hr
    by_cases hroom : last.head.capacity = 1
    · rw [if_pos hroom] at hr
      cases hr
    · rw [if_neg hroom] at hr
      cases hr
      have hwell : last.WellFormed := Run.ofInstructions_wellFormed is last (by simp [hlast])
      have hbytes : w.buffer.bytes = (b.bytes ++ rs.flatMap Run.bytes) ++ last.bytes := by
        rw [h.bytes, instructionBytes, hlast, List.flatMap_append, List.flatMap_singleton,
          List.append_assoc]
      refine ⟨rs.flatMap Run.instructions, last.instructions, ?_, ?_⟩
      · rw [← Run.ofInstructions_flatMap is, hlast, List.flatMap_append, List.flatMap_singleton]
      · have htracks := hwell.tracks hroom hbytes
        rwa [List.length_append] at htracks

/-- An instruction follows what is written; or its operands do, and the opcode byte
    of the open run is raised by one. -/
def Puts (w : Writer) (i : Instruction) (w' : Writer) : Prop :=
  w'.buffer = w.buffer.append (i.opcode :: i.operandBytes) ∨
    ∃ r, w.run = some r ∧ r.opcode = i.opcode ∧ w'.run = some { r with count := r.count + 1 } ∧
      w'.buffer = Buffer.append ⟨w.buffer.bytes.set r.index (r.opcode + UInt8.ofNat r.count)⟩
        i.operandBytes

theorem puts_of_put? {w w' : Writer} {i : Instruction} (h : w.put? i = some w') : w.Puts i w' := by
  have hbegin : w.Puts i (w.begin i) := by
    refine .inl ?_
    show Buffer.mk (w.buffer.bytes ++ [i.opcode] ++ i.operandBytes) = _
    rw [List.append_assoc]
    rfl
  unfold put? at h
  split at h
  · next r hr =>
    split at h
    · next hjoins =>
      unfold join? Buffer.set? at h
      by_cases hlt : r.index < w.buffer.size
      · rw [if_pos hlt] at h
        cases h
        exact .inr ⟨r, hr, hjoins.1, rfl, by rw [hjoins.1]⟩
      · rw [if_neg hlt] at h
        cases h
    · cases h
      exact hbegin
  · cases h
    exact hbegin

end Writer

/-! ## §5. Paths. -/

/-- **Merging is transparent and maximal.**  The bytes of a path are read as the same
    path with an opcode byte for each instruction.  While the path is written, one
    instruction after the other, nothing is overwritten but the opcode byte of the
    open run, which stands where the writer believes it and counts no more than its
    opcode allows.  A run is followed by one of its own opcode only if it is full,
    hence instructions in a row with one opcode have as few runs as possible. -/
theorem merging_transparent_maximal {t : Transform} {cs : List Command} {o : Outline}
    (ho : Outline.ofCommands? t cs = some o) {a : UInt8} (ha : IsAdjustment a) (b : Buffer) :
    (∃ read, Reads item (o.bytes a) (.path a read) ∧ Reads item (o.unrolledBytes a) (.path a read)) ∧
    (Writer.path? t b a cs = some (b.append (o.bytes a)) ∧
      Writer.path? t b a cs = (o.body.foldlM Writer.put? (Writer.begun b a o.start)).map Writer.buffer ∧
      ∀ is js, o.body = is ++ js → ∃ w, is.foldlM Writer.put? (Writer.begun b a o.start) = some w ∧
        (∀ r, w.run = some r → ∃ before run, is = before ++ run ∧ r.Tracks w.buffer run) ∧
        ∀ i js', js = i :: js' → ∃ w', w.put? i = some w' ∧ w.Puts i w') ∧
    (Run.ofInstructions o.body).IsChain Run.Fills ∧
    ∀ before block after opcode, o.body = before ++ (block ++ after) → block ≠ [] →
      (∀ i ∈ block, i.opcode = opcode) → Run.Parted before block → Run.Parted block after →
      ∃ runs, Run.ofInstructions o.body =
          Run.ofInstructions before ++ (runs ++ Run.ofInstructions after) ∧
        runs.flatMap Run.instructions = block ∧
        runs.length = block.length ⌈/⌉ Instruction.capacityOf opcode := by
  have hended := Outline.ofCommands?_ended ho
  refine ⟨⟨o.recovered, item_reads_path ha hended, item_reads_unrolled ha hended⟩,
    ⟨Writer.path?_eq ho b a, Writer.path?_instructions ho b a, ?_⟩,
    Run.ofInstructions_fills o.body, ?_⟩
  · intro is js _
    obtain ⟨w, hw, hwrote, -⟩ := (Writer.Wrote.nothing _ _).putAll is
    refine ⟨w, hw, fun r hr => hwrote.tracks hr, fun i js' _ => ?_⟩
    obtain ⟨w', hput, -, -⟩ := hwrote.put i
    exact ⟨w', hput, Writer.puts_of_put? hput⟩
  · intro before block after opcode hbody hne hopcode hbefore hafter
    refine ⟨Run.ofInstructions block, ?_, Run.ofInstructions_flatMap block,
      Run.ofInstructions_length hopcode⟩
    obtain ⟨i, is, rfl⟩ := List.exists_cons_of_ne_nil hne
    have hparted : Run.Parted before (i :: is ++ after) := hbefore
    rw [hbody, Run.ofInstructions_append hparted, Run.ofInstructions_append hafter]

/-- Two lines to the sides of a square. -/
def twoLines : List Command :=
  [.moveTo .absolute .origin, .lineTo .relative ⟨1.0, 0.0⟩, .lineTo .relative ⟨0.0, 1.0⟩]

/-- Two lines have one opcode byte, and are read from two as well. -/
theorem merging_transparent_maximal_twoLines :
    ∃ o, Outline.ofCommands? ⟨1.0, .origin⟩ twoLines = some o ∧
      o.bytes 0 = [0xc0, 0x80, 0x80, 0x21, 0x82, 0x80, 0x80, 0x82, 0xe1] ∧
      o.unrolledBytes 0 = [0xc0, 0x80, 0x80, 0x20, 0x82, 0x80, 0x20, 0x80, 0x82, 0xe1] ∧
      ∃ read, Reads item (o.bytes 0) (.path 0 read) ∧ Reads item (o.unrolledBytes 0) (.path 0 read) := by
  obtain ⟨o, ho⟩ : ∃ o, Outline.ofCommands? ⟨1.0, .origin⟩ twoLines = some o := ⟨_, rfl⟩
  have hforeground : IsAdjustment 0 := Nat.zero_le _
  have hread := (merging_transparent_maximal ho hforeground .empty).1
  cases ho
  exact ⟨_, rfl, by decide +kernel, by decide +kernel, hread⟩

end Icon

end VectorIcon

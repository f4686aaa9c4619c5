/-
  VectorIcon.Proofs.Icon.Layout
  ────────────────────────────────
  **A WHOLE ICON IS READ BACK: HEADER, REGISTERS AND PATHS.**

  The header is read back as the metadata it was written for
  (`Encoder.header_reads`).  What follows it is a row of pieces, one item each:
  a register setting where a path needs one, and the outline of every path that
  has commands (`Encoder.groups_pieces`).  Together:

      readParts_encode —
                      an icon made from a drawing is read as its metadata and
                      the items of what the paths paint
      decode_encode — an icon made from a drawing is decoded without an error,
                      and shows one path for each path data that has commands,
                      in the order of the drawing: the outline of the commands,
                      every number as it is read back
-/
import Mathlib.Data.List.Forall2
import VectorIcon.Icon.Decoder
import VectorIcon.Icon.Encoder
import VectorIcon.Proofs.Icon.Runs
import VectorIcon.Proofs.Path.Commands

namespace VectorIcon

namespace Icon

/-! ## §1. Outlines of commands. -/

theorem Instruction.opcode_ne_endPath {i : Instruction} (h : i ≠ .endPath) :
    i.opcode ≠ Instruction.endPath.opcode := by
  cases i with
  | endPath => exact absurd rfl h
  | line f _ | smoothQuad f _ | quad f _ _ | smoothCubic f _ _ | cubic f _ _ _ | arc f _ _ _ _ _
  | horizontal f _ | vertical f _ | closeMove f _ =>
    show pick f _ _ ≠ 0xe1
    cases f <;> decide

namespace Pen

/-- Drawing does not end the path. -/
theorem draw_ne_endPath (pen : Pen) (t : Transform) (c : Command) :
    ∀ i ∈ (pen.draw t c).1, i ≠ .endPath := by
  intro i hi
  cases c with
  | smoothCubicTo f second target =>
    unfold draw at hi
    simp only at hi
    split at hi <;> (rw [List.mem_singleton.1 hi]; exact Instruction.noConfusion)
  | smoothQuadTo f target =>
    unfold draw at hi
    simp only at hi
    split at hi <;> (rw [List.mem_singleton.1 hi]; exact Instruction.noConfusion)
  | close => cases hi
  | moveTo f target | lineTo f target | horizontalTo f x | verticalTo f y
  | cubicTo f first second target | quadTo f control target | arcTo f shape target =>
    rw [List.mem_singleton.1 hi]
    exact Instruction.noConfusion

theorem step_ne_endPath (pen : Pen) (t : Transform) (c : Command) :
    ∀ i ∈ (pen.step t c).1, i ≠ .endPath := by
  intro i hi
  -- what closes a sub-path is a move, not an end
  unfold step at hi
  split at hi
  · rcases List.mem_cons.1 hi with rfl | hi
    · exact Instruction.noConfusion
    · exact draw_ne_endPath _ t c i hi
  · exact draw_ne_endPath pen t c i hi

theorem drawAll_unended (pen : Pen) (t : Transform) (cs : List Command) :
    Unended (pen.drawAll t cs) := by
  induction cs generalizing pen with
  | nil => intro i hi; cases hi
  | cons c cs ih =>
    intro i hi
    rcases List.mem_append.1 hi with hi | hi
    · exact Instruction.opcode_ne_endPath (step_ne_endPath pen t c i hi)
    · exact ih _ i hi

end Pen

theorem Outline.ofCommands?_ended {t : Transform} {cs : List Command} {o : Outline}
    (h : ofCommands? t cs = some o) : o.Ended := by
  unfold ofCommands? at h
  split at h
  · cases h
    exact ⟨_, Pen.drawAll_unended _ _ _, rfl⟩
  · cases h

/-- Commands which are read have an outline. -/
theorem exists_outline (t : Transform) {d : String} {c : Command} {cs : List Command}
    (h : Path.parse d = .ok (c :: cs)) : ∃ o, Outline.ofCommands? t (c :: cs) = some o := by
  rcases Path.parse_starts h with hnil | ⟨f, target, rest, hstart⟩
  · cases hnil
  · rw [hstart]
    exact ⟨_, rfl⟩

/-! ## §2. The header. -/

/-- A chunk is read back if its data is and it is short. -/
theorem chunk_reads (kind : Nat) {data : List UInt8} {m : Metadata} (hk : kind < 128)
    (hdata : Reads (metadataOf (UInt32.ofNat kind)) data m)
    (hlen : (naturalBytes (UInt32.ofNat kind) ++ data).length < 128) :
    Reads metadata (chunk (UInt32.ofNat kind) data) m := by
  intro rest
  have hbody : Reads (do metadataOf (← natural) : Reading Metadata)
      (naturalBytes (UInt32.ofNat kind) ++ data) m := (natural_reads hk).bind hdata
  -- a short chunk has a length of one byte, which is compared with what was read
  have hcount : (UInt32.ofNat (naturalBytes (UInt32.ofNat kind) ++ data).length).toNat =
      (naturalBytes (UInt32.ofNat kind) ++ data).length := by
    rw [UInt32.toNat_ofNat']
    omega
  unfold chunk metadata
  simp only
  rw [List.append_assoc]
  refine Scan.bind_ok.2 ⟨_, _, natural_reads hlen _, ?_⟩
  rw [hbody rest]
  simp only
  rw [if_pos (by rw [hcount, List.length_append, Nat.add_comm])]

theorem coordinateBytes_length_le (x : Scalar) : (coordinateBytes x).length ≤ 4 := by
  unfold coordinateBytes
  rw [Word.length_bytes]
  cases Word.ofCoordinate x <;> simp [Word.size]

/-- The bytes of a small natural are a single one. -/
theorem naturalBytes_length {n : Nat} (h : n < 128) : (naturalBytes (UInt32.ofNat n)).length = 1 := by
  unfold naturalBytes
  rw [ofNatural_small h]
  rfl

theorem bytes_reads (bs : List UInt8) : Reads (bytes bs.length) bs bs := by
  intro rest
  have hsplit : splitExactly? bs.length (bs ++ rest) = some (bs, rest) := by
    induction bs with
    | nil => rfl
    | cons b bs ih =>
      show (splitExactly? bs.length (bs ++ rest)).map _ = _
      rw [ih]
      rfl
  unfold bytes
  rw [hsplit]

namespace Encoder

/-- The view box as it is read back. -/
def bounds (e : Encoder) : Bounds :=
  let low := recoverCoordinate (-(e.outputSize / 2.0))
  let high := recoverCoordinate (e.outputSize / 2.0)
  ⟨low, low, high, high⟩

theorem viewBoxChunk_reads (e : Encoder) : Reads metadata e.viewBoxChunk (.viewBox e.bounds) := by
  have low := coordinate_reads (-(e.outputSize / 2.0))
  have high := coordinate_reads (e.outputSize / 2.0)
  have hlow := coordinateBytes_length_le (-(e.outputSize / 2.0))
  have hhigh := coordinateBytes_length_le (e.outputSize / 2.0)
  refine chunk_reads 0 (by decide) ?_ ?_
  · show Reads _ (_ ++ (_ ++ (_ ++ (_ ++ [])))) _
    rw [List.append_nil]
    exact low.bind (low.bind (high.bind (high.map _)))
  · rw [List.length_append, naturalBytes_length (by decide)]
    simp only [List.flatMap_cons, List.flatMap_nil, List.length_append, List.length_nil]
    omega

theorem paletteChunk_reads (e : Encoder) :
    Reads metadata e.paletteChunk (.palette [(DirectColor.ofRgba e.foreground).bytes]) := by
  generalize hc : DirectColor.ofRgba e.foreground = color
  have hlayout : (color.form <<< 6).toNat / 64 + 1 = color.bytes.length ∧
      (color.form <<< 6).toNat % 64 + 1 = 1 ∧ color.bytes.length ≤ 4 := by
    -- one color: its form in the two highest bits, a count of one below
    have hform : (color.form <<< 6).toNat / 64 + 1 = color.form.toNat + 1 ∧
        (color.form <<< 6).toNat % 64 + 1 = 1 ∧ color.form.toNat + 1 ≤ 4 := by
      cases color <;> simp only [DirectColor.form] <;> decide
    rwa [← DirectColor.length_bytes] at hform
  unfold paletteChunk
  rw [hc]
  refine chunk_reads 1 (by decide) ?_ ?_
  · show Reads _ ([color.form <<< 6] ++ color.bytes) _
    refine (byte_reads (color.form <<< 6)).bind ?_
    rw [hlayout.1, hlayout.2.1]
    have hentries := Reads.times id id [color.bytes]
      fun bs hbs => by rw [List.mem_singleton.1 hbs]; exact bytes_reads color.bytes
    have h := hentries.map Metadata.palette
    simpa using h
  · rw [List.length_append, naturalBytes_length (by decide), List.length_cons]
    omega

/-- The chunks of the header, each with what it is read as. -/
def sections (e : Encoder) : List (List UInt8 × Metadata) :=
  (if e.outputSize / 2.0 != defaultHalfSize then [(e.viewBoxChunk, .viewBox e.bounds)] else []) ++
    (if e.foreground ≠ .black then
      [(e.paletteChunk, .palette [(DirectColor.ofRgba e.foreground).bytes])] else [])

theorem chunks_eq_sections (e : Encoder) : e.chunks = e.sections.map Prod.fst := by
  unfold chunks sections
  split <;> split <;> rfl

theorem sections_reads (e : Encoder) : ∀ s ∈ e.sections, Reads metadata s.1 s.2 := by
  intro s hs
  unfold sections at hs
  rcases List.mem_append.1 hs with hs | hs
  · split at hs
    · rw [List.mem_singleton.1 hs]
      exact e.viewBoxChunk_reads
    · cases hs
  · split at hs
    · rw [List.mem_singleton.1 hs]
      exact e.paletteChunk_reads
    · cases hs

/-- **The header is read back** as its metadata. -/
theorem header_reads (e : Encoder) : Reads Icon.header e.header (e.sections.map Prod.snd) := by
  have hlen : e.sections.length < 128 := by
    unfold sections
    split <;> split <;> simp
  have hcount : (UInt32.ofNat e.sections.length).toNat = e.sections.length := by
    rw [UInt32.toNat_ofNat']
    omega
  -- at most two chunks, so their number takes one byte
  have hmagic : Reads magicBytes Icon.magic () := fun rest => rfl
  have hchunks := Reads.times _ _ e.sections e.sections_reads
  rw [← hcount] at hchunks
  have hall := hmagic.bind (f := fun _ => Icon.natural >>= fun n => Scan.times metadata n.toNat)
    ((natural_reads hlen).bind (f := fun n => Scan.times metadata n.toNat) hchunks)
  unfold Encoder.header
  rw [chunks_eq_sections, List.length_map, List.append_assoc, ← List.flatMap_def]
  exact hall

end Encoder

/-! ## §3. Registers. -/

namespace Registers

/-- Registers which fit the adjustments: there are no more weights than
    registers, and the next one to overwrite is one of them. -/
structure Bounded (r : Registers) : Prop where
  weights_le : r.weights.length ≤ registerCount
  next_lt : r.next < registerCount

theorem empty_bounded : empty.Bounded := ⟨by decide, by decide⟩

theorem adjustment_isAdjustment {index : Nat} (h : index < registerCount) :
    IsAdjustment (adjustment index) := by
  unfold IsAdjustment adjustment registerCount at *
  rw [UInt8.toNat_ofNat']
  omega

/-- **Selecting a register** names an adjustment, writes nothing or one setting
    of that adjustment, and keeps the registers bounded. -/
theorem select_spec {r : Registers} (hr : r.Bounded) (weight : UInt8) :
    IsAdjustment (r.select weight).1 ∧
      ((r.select weight).2.1 = [] ∨ (r.select weight).2.1 = setBytes (r.select weight).1 weight) ∧
      (r.select weight).2.2.Bounded := by
  unfold select
  by_cases hopaque : weight = 255
  · rw [if_pos hopaque]
    exact ⟨Nat.zero_le _, .inl rfl, hr⟩
  · rw [if_neg hopaque]
    cases hfind : r.weights.findIdx? (· = weight) with
    | some index =>
      obtain ⟨hlt, -⟩ := List.findIdx?_eq_some_iff_getElem.1 hfind
      exact ⟨adjustment_isAdjustment (Nat.lt_of_lt_of_le hlt hr.weights_le), .inl rfl, hr⟩
    | none =>
      -- there is a register to take, or one to overwrite
      by_cases hroom : r.weights.length < registerCount
      · simp only
        rw [if_pos hroom]
        refine ⟨adjustment_isAdjustment hroom, .inr rfl, ?_, hr.next_lt⟩
        rw [List.length_append]
        exact hroom
      · simp only
        rw [if_neg hroom]
        refine ⟨adjustment_isAdjustment hr.next_lt, .inr rfl, ?_, Nat.mod_lt _ (by decide)⟩
        rw [List.length_set]
        exact hr.weights_le

end Registers

/-! ## §4. The items of a drawing. -/

/-- An outline and the weight it is painted with. -/
structure Painting where
  weight : UInt8
  outline : Outline

/-- What a path paints; nothing if it has no commands. -/
def painting? (t : Transform) (p : PathElement) : Option Painting := do
  let commands ← (Path.parse p.data).toOption
  let outline ← Outline.ofCommands? t commands
  return ⟨opacityWeight p.paint.alpha, outline⟩

namespace Registers

/-- The setting of the register of a weight, if one is written. -/
def settingItems (r : Registers) (weight : UInt8) : List Item :=
  if (r.select weight).2.1 = [] then []
  else [.register (r.select weight).1 weight transparentByte firstPaletteByte]

/-- The path of a painting, with the adjustment of its register. -/
def pathItem (r : Registers) (p : Painting) : Item :=
  .path (r.select p.weight).1 p.outline.recovered

/-- The items of paintings: each one has its path, after the setting of its
    register if one is written. -/
def items (r : Registers) : List Painting → List Item
  | [] => []
  | p :: ps => r.settingItems p.weight ++ r.pathItem p :: items (r.select p.weight).2.2 ps

end Registers

/-- Bytes which are read as one item. -/
structure Piece where
  bytes : List UInt8
  item : Item
  reads : Reads Icon.item bytes item

/-- A path shows an outline of the commands, its numbers as they are read back. -/
def Shows (t : Transform) (cs : List Command) (painted : PaintedPath) : Prop :=
  ∃ o, Outline.ofCommands? t cs = some o ∧ painted.strokes = o.recovered.strokes

/-- The paths among the items show what the paintings are made from. -/
theorem Registers.items_show {t : Transform} {css : List (List Command)} {ps : List Painting}
    (h : List.Forall₂ (fun cs p => Outline.ofCommands? t cs = some p.outline) css ps)
    (r : Registers) : List.Forall₂ (Shows t) css (Content.pathsOf (r.items ps)) := by
  induction h generalizing r with
  | nil => exact .nil
  | @cons cs p css ps ho hrest ih =>
    have hset : Content.pathsOf (r.settingItems p.weight) = [] := by
      unfold settingItems
      split <;> rfl
    unfold Content.pathsOf at ih hset ⊢
    rw [items, List.filterMap_append, hset]
    exact .cons ⟨p.outline, ho, rfl⟩ (ih _)

/-- The pieces of one painting: the setting of its register, if there is one, and
    its outline. -/
theorem group_pieces {r : Registers} (hr : r.Bounded) {p : Painting} (ho : p.outline.Ended) :
    ∃ pieces : List Piece,
      (r.select p.weight).2.1 ++ p.outline.bytes (r.select p.weight).1 =
        pieces.flatMap Piece.bytes ∧
      pieces.map Piece.item = r.settingItems p.weight ++ [r.pathItem p] := by
  obtain ⟨ha, hset | hset, -⟩ := Registers.select_spec hr p.weight
  · refine ⟨[⟨_, _, item_reads_path ha ho⟩], ?_, ?_⟩
    · rw [hset]
      exact (List.append_nil _).symm
    · rw [Registers.settingItems, if_pos hset]
      rfl
  · refine ⟨[⟨_, _, item_reads_register ha p.weight⟩, ⟨_, _, item_reads_path ha ho⟩], ?_, ?_⟩
    · rw [hset]
      exact congrArg (Registers.setBytes _ p.weight ++ ·) (List.append_nil _).symm
    · rw [Registers.settingItems, if_neg (by rw [hset]; exact List.cons_ne_nil _ _)]
      rfl

namespace Encoder

section Groups

variable {t : Transform} {r : Registers} {p : PathElement} {ps : List PathElement}

/-- Path data without commands has no group. -/
theorem groups_empty (hparse : Path.parse p.data = .ok []) : groups t r (p :: ps) = groups t r ps := by
  rw [groups, hparse]
  rfl

theorem painting?_empty (hparse : Path.parse p.data = .ok []) : painting? t p = none := by
  unfold painting?
  rw [hparse]
  rfl

theorem painting?_outline {cs : List Command} {o : Outline} (hparse : Path.parse p.data = .ok cs)
    (ho : Outline.ofCommands? t cs = some o) :
    painting? t p = some ⟨opacityWeight p.paint.alpha, o⟩ := by
  unfold painting?
  rw [hparse]
  show (Outline.ofCommands? t cs >>= _) = _
  rw [ho]
  rfl

/-- The group of an outline, before those of the other paths. -/
theorem groups_outline {cs : List Command} {o : Outline} (hparse : Path.parse p.data = .ok cs)
    (ho : Outline.ofCommands? t cs = some o) :
    groups t r (p :: ps) =
      (groups t (r.select (opacityWeight p.paint.alpha)).2.2 ps).map
        (((r.select (opacityWeight p.paint.alpha)).2.1 ++
          o.bytes (r.select (opacityWeight p.paint.alpha)).1) :: ·) := by
  rw [groups, hparse]
  simp only [bind, Except.bind, ho]
  cases groups t (r.select (opacityWeight p.paint.alpha)).2.2 ps <;> rfl

end Groups

/-- **The groups are a row of pieces**, which are read as the items of what the
    paths paint. -/
theorem groups_pieces {t : Transform} {r : Registers} (hr : r.Bounded) {ps : List PathElement}
    {gs : List (List UInt8)} (h : groups t r ps = .ok gs) :
    ∃ (css : List (List Command)) (pieces : List Piece),
      ps.mapM (fun p => Path.parse p.data) = .ok css ∧
      List.Forall₂ (fun cs p => Outline.ofCommands? t cs = some p.outline)
        (css.filter (!·.isEmpty)) (ps.filterMap (painting? t)) ∧
      gs.flatten = pieces.flatMap Piece.bytes ∧
      pieces.map Piece.item = r.items (ps.filterMap (painting? t)) := by
  -- the registers are passed on from path to path
  induction ps generalizing r gs with
  | nil =>
    cases h
    exact ⟨[], [], rfl, .nil, rfl, rfl⟩
  | cons p ps ih =>
    cases hparse : Path.parse p.data with
    | error e =>
      rw [groups, hparse] at h
      cases h
    | ok cs =>
      rcases Path.parse_starts hparse with rfl | ⟨f, target, rest, rfl⟩
      · rw [groups_empty hparse] at h
        obtain ⟨css, pieces, hcss, hpaint, hgs, hitems⟩ := ih hr h
        rw [List.filterMap_cons_none (painting?_empty hparse)]
        refine ⟨[] :: css, pieces, ?_, hpaint, hgs, hitems⟩
        rw [List.mapM_cons, hparse, hcss]
        rfl
      · obtain ⟨o, ho⟩ : ∃ o, Outline.ofCommands? t (.moveTo f target :: rest) = some o := ⟨_, rfl⟩
        obtain ⟨-, -, hnext⟩ := Registers.select_spec hr (opacityWeight p.paint.alpha)
        rw [groups_outline hparse ho] at h
        cases hrest : groups t (r.select (opacityWeight p.paint.alpha)).2.2 ps with
        | error e =>
          rw [hrest] at h
          cases h
        | ok gs' =>
          rw [hrest] at h
          cases h
          obtain ⟨css, pieces, hcss, hpaint, hgs, hitems⟩ := ih hnext hrest
          obtain ⟨own, hown, hownItems⟩ := group_pieces hr
            (p := ⟨opacityWeight p.paint.alpha, o⟩) (Outline.ofCommands?_ended ho)
          rw [List.filterMap_cons_some (painting?_outline hparse ho)]
          refine ⟨(.moveTo f target :: rest) :: css, own ++ pieces, ?_, .cons ho hpaint, ?_, ?_⟩
          · rw [List.mapM_cons, hparse, hcss]
            rfl
          · rw [List.flatten_cons, List.flatMap_append, hgs, hown]
          · rw [List.map_append, hownItems, hitems, List.append_assoc]
            rfl

/-- **An icon which is made is read** as its metadata and the items of what the
    paths of the drawing paint. -/
theorem readParts_encode {e : Encoder} {d : Drawing} {bytes : List UInt8}
    (h : e.encode d = .ok bytes) :
    ∃ css : List (List Command),
      d.paths.mapM (fun p => Path.parse p.data) = .ok css ∧
      List.Forall₂
        (fun cs p => Outline.ofCommands? (Transform.fit d.canvas.viewBox e.outputSize) cs =
          some p.outline)
        (css.filter (!·.isEmpty))
        (d.paths.filterMap (painting? (Transform.fit d.canvas.viewBox e.outputSize))) ∧
      readParts bytes = .ok ⟨e.sections.map Prod.snd, Registers.empty.items
        (d.paths.filterMap (painting? (Transform.fit d.canvas.viewBox e.outputSize)))⟩ := by
  unfold encode at h
  cases hgroups : groups (Transform.fit d.canvas.viewBox e.outputSize) .empty d.paths with
  | error e' =>
    rw [hgroups] at h
    cases h
  | ok gs =>
    rw [hgroups] at h
    have hbytes : bytes = e.header ++ gs.flatten := by
      cases gs with
      | nil => cases h
      | cons g gs => exact (Except.ok.inj h).symm
    obtain ⟨css, pieces, hcss, hpaint, hgs, hitems⟩ :=
      groups_pieces Registers.empty_bounded hgroups
    refine ⟨css, hcss, hpaint, ?_⟩
    -- the body is a row of pieces, each of them one item
    have htoEnd := toEnd_reads item_takes pieces fun p _ => p.reads
    unfold readParts
    rw [hbytes, hgs, e.header_reads]
    simp only
    rw [htoEnd, ← hitems]

/-- **An icon which is made is decoded**, and shows the paths of the drawing
    which have commands, in their order. -/
theorem decode_encode {e : Encoder} {d : Drawing} {bytes : List UInt8} (h : e.encode d = .ok bytes) :
    ∃ (css : List (List Command)) (content : Content),
      d.paths.mapM (fun p => Path.parse p.data) = .ok css ∧ decode bytes = .ok content ∧
      List.Forall₂ (Shows (Transform.fit d.canvas.viewBox e.outputSize))
        (css.filter (!·.isEmpty)) content.paths := by
  obtain ⟨css, hcss, hpaint, hread⟩ := readParts_encode h
  refine ⟨css, _, hcss, by unfold decode; rw [hread], ?_⟩
  exact Registers.empty.items_show hpaint

/-- Whether a drawing is encoded can be computed. -/
theorem exists_encode {e : Encoder} {d : Drawing} (h : (e.encode d).toOption.isSome = true) :
    ∃ bytes, e.encode d = .ok bytes := Except.exists_ok h

end Encoder

end Icon

end VectorIcon

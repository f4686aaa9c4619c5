/-
  VectorIcon.Proofs.Icon.Choice
  ────────────────────────────────
  **OPERANDS ARE WRITTEN IN THE FORM WHICH TAKES FEWER BYTES.**

  A command can be written in absolute coordinates or relative to the pen, a move
  relative to the start of the sub-path.  An `Offer` holds the coordinates of both
  forms at a state of the pen.  Which one is shorter is measured on the operands,
  and what is written are the words of the chosen ones, in four places: for
  operands which are points, for a line along an axis, for a move, and for the move
  which is inserted to draw after a close.

      Offer.Taken           — an instruction is the shorter form of its offer, the
                              relative one if both are equally long
      Pen.step_taken        — every command, whatever the state of the pen
      Plotter.run_letters   — a reader sees an upper case letter for every absolute
                              form, and for no other
      Pen.restarts          — the inserted move takes two bytes and stays in place
-/
import VectorIcon.Proofs.Icon.Layout
import VectorIcon.Proofs.Icon.Lockstep
import VectorIcon.Proofs.Icon.Tolerance

namespace VectorIcon

/-- The coordinates of a point in the order in which they are written. -/
def Point.coordinates (p : Point) : List Scalar := [p.x, p.y]

namespace Icon

/-! ## §1. Offers. -/

/-- The bytes which coordinates take. -/
def encodedSize (xs : List Scalar) : ℕ := (xs.flatMap coordinateBytes).length

/-- A command with its coordinates in both forms. -/
structure Offer where
  kind : CommandKind
  absolute : List Scalar
  relative : List Scalar

namespace Offer

/-- The coordinates in one form. -/
def inFrame (o : Offer) : Frame → List Scalar
  | .absolute => o.absolute
  | .relative => o.relative

/-- The form to be taken: absolute only if that is strictly shorter. -/
def frame (o : Offer) : Frame :=
  if encodedSize o.absolute < encodedSize o.relative then .absolute else .relative

/-- The letter of the form to be taken. -/
def letter (o : Offer) : Char := (CommandLetter.mk o.kind o.frame).toChar

/-- What a reader sees of it: a move closes a sub-path first. -/
def letters (o : Offer) : List Char := if o.kind = .move then ['Z', o.letter] else [o.letter]

/-- The forms of operands which are points. -/
def ofOperands (kind : CommandKind) (os : List Operand) : Offer where
  kind := kind
  absolute := os.flatMap fun o => o.absolute.coordinates
  relative := os.flatMap fun o => o.relative.coordinates

/-- The forms of a single coordinate. -/
def ofForms (kind : CommandKind) (forms : Scalar × Scalar) : Offer := ⟨kind, [forms.1], [forms.2]⟩

end Offer

namespace Pen

/-- A move to a target, relative to the start of the sub-path which it closes. -/
def moveOffer (pen : Pen) (target : Point) : Offer := .ofOperands .move [⟨target, target - pen.start⟩]

/-- The forms of a command on an open sub-path.  A smooth curve which follows no curve
    of its family is written with the pen as its control point. -/
def offer? (pen : Pen) (t : Transform) : Command → Option Offer
  | .moveTo f p => some (pen.moveOffer (pen.operand t f p).absolute)
  | .lineTo f p => some (.ofOperands .line [pen.operand t f p])
  | .horizontalTo f x =>
    some (.ofForms .horizontal (axisForms f pen.position.x (t.applyX x) (t.scale * x)))
  | .verticalTo f y =>
    some (.ofForms .vertical (axisForms f pen.position.y (t.applyY y) (t.scale * y)))
  | .cubicTo f a b p =>
    some (.ofOperands .cubic [pen.operand t f a, pen.operand t f b, pen.operand t f p])
  | .smoothCubicTo f b p =>
    if pen.family = some .cubic then
      some (.ofOperands .smoothCubic [pen.operand t f b, pen.operand t f p])
    else some (.ofOperands .cubic [pen.here, pen.operand t f b, pen.operand t f p])
  | .quadTo f a p => some (.ofOperands .quad [pen.operand t f a, pen.operand t f p])
  | .smoothQuadTo f p =>
    if pen.family = some .quad then some (.ofOperands .smoothQuad [pen.operand t f p])
    else some (.ofOperands .quad [pen.here, pen.operand t f p])
  | .arcTo f _ p => some (.ofOperands .arc [pen.operand t f p])
  | .close => none

/-- The forms of what a command writes, with the move which is inserted to draw
    after a close. -/
def offers (pen : Pen) (t : Transform) (c : Command) : List Offer :=
  if pen.closed && needsOpen c then
    pen.moveOffer pen.start :: ((pen.closeMove pen.start).2.offer? t c).toList
  else (pen.offer? t c).toList

/-- The forms of what commands write. -/
def offersAll (pen : Pen) (t : Transform) : List Command → List Offer
  | [] => []
  | c :: cs => pen.offers t c ++ offersAll (pen.step t c).2 t cs

end Pen

/-! ## §2. What is written of an offer. -/

namespace Instruction

/-- The command which an instruction amounts to. -/
def kind : Instruction → CommandKind
  | .line _ _ => .line
  | .smoothQuad _ _ => .smoothQuad
  | .quad _ _ _ => .quad
  | .smoothCubic _ _ _ => .smoothCubic
  | .cubic _ _ _ _ => .cubic
  | .arc _ _ _ _ _ _ => .arc
  | .horizontal _ _ => .horizontal
  | .vertical _ _ => .vertical
  | .closeMove _ _ => .move
  | .endPath => .close

/-- How the operands are meant. -/
def frame : Instruction → Frame
  | .line f _ | .smoothQuad f _ | .quad f _ _ | .smoothCubic f _ _ | .cubic f _ _ _ | .arc f _ _ _ _ _
  | .horizontal f _ | .vertical f _ | .closeMove f _ => f
  | .endPath => .absolute

/-- The coordinates which may be relative, in the order in which they are written. -/
def coordinates : Instruction → List Scalar
  | .line _ p | .smoothQuad _ p | .arc _ _ _ _ _ p | .closeMove _ p => p.coordinates
  | .quad _ c p | .smoothCubic _ c p => c.coordinates ++ p.coordinates
  | .cubic _ b c p => b.coordinates ++ (c.coordinates ++ p.coordinates)
  | .horizontal _ v | .vertical _ v => [v]
  | .endPath => []

/-- The bytes before the coordinates: only the shape of an arc is the same in both
    forms. -/
def shapeBytes : Instruction → List UInt8
  | .arc _ radii rotation large sweep _ =>
    pointBytes radii ++ zeroToOneBytes rotation ++ naturalBytes (arcFlags large sweep)
  | _ => []

/-- What a reader sees of an instruction. -/
def letters (i : Instruction) : List Char :=
  let letter := (CommandLetter.mk i.kind i.frame).toChar
  if i.kind = .move then ['Z', letter] else [letter]

end Instruction

theorem flatMap_coordinates (p : Point) : p.coordinates.flatMap coordinateBytes = pointBytes p := by
  unfold Point.coordinates pointBytes
  rw [List.flatMap_cons, List.flatMap_singleton]

theorem flatMap_coordinates_two (p q : Point) :
    (p.coordinates ++ q.coordinates).flatMap coordinateBytes = pointBytes p ++ pointBytes q := by
  rw [List.flatMap_append, flatMap_coordinates, flatMap_coordinates]

/-- The operands are the shape and the coordinates, one after the other. -/
theorem Instruction.operandBytes_eq (i : Instruction) :
    i.operandBytes = i.shapeBytes ++ i.coordinates.flatMap coordinateBytes := by
  cases i with
  | line f p | smoothQuad f p | closeMove f p =>
    show pointBytes p = [] ++ p.coordinates.flatMap coordinateBytes
    rw [flatMap_coordinates, List.nil_append]
  | quad f c p | smoothCubic f c p =>
    show pointBytes c ++ pointBytes p = [] ++ (c.coordinates ++ p.coordinates).flatMap coordinateBytes
    rw [flatMap_coordinates_two, List.nil_append]
  | cubic f b c p =>
    show pointBytes b ++ pointBytes c ++ pointBytes p =
      [] ++ (b.coordinates ++ (c.coordinates ++ p.coordinates)).flatMap coordinateBytes
    rw [List.flatMap_append, flatMap_coordinates_two, flatMap_coordinates, List.nil_append,
      List.append_assoc]
  | arc f radii rotation large sweep p =>
    show pointBytes radii ++ zeroToOneBytes rotation ++ naturalBytes (arcFlags large sweep) ++
      pointBytes p = _ ++ p.coordinates.flatMap coordinateBytes
    rw [flatMap_coordinates]
    rfl
  | horizontal f v | vertical f v =>
    show coordinateBytes v = [] ++ [v].flatMap coordinateBytes
    rw [List.flatMap_singleton, List.nil_append]
  | endPath => rfl

/-- **An instruction is the shorter form of its offer.** -/
structure Offer.Taken (o : Offer) (i : Instruction) : Prop where
  kind_eq : i.kind = o.kind
  frame_iff : i.frame = .absolute ↔ encodedSize o.absolute < encodedSize o.relative
  coordinates_eq : i.coordinates = o.inFrame i.frame
  operandBytes_eq : i.operandBytes = i.shapeBytes ++ i.coordinates.flatMap coordinateBytes
  size_eq : encodedSize i.coordinates = min (encodedSize o.absolute) (encodedSize o.relative)

namespace Offer

theorem frame_iff (o : Offer) :
    o.frame = .absolute ↔ encodedSize o.absolute < encodedSize o.relative := by
  unfold frame
  split <;> simp [*]

/-- The form to be taken has the least size. -/
theorem encodedSize_frame (o : Offer) :
    encodedSize (o.inFrame o.frame) = min (encodedSize o.absolute) (encodedSize o.relative) := by
  unfold frame
  split
  · next h => exact (Nat.min_eq_left (Nat.le_of_lt h)).symm
  · next h => exact (Nat.min_eq_right (Nat.le_of_not_lt h)).symm

/-- The instruction with the coordinates of the form to be taken. -/
theorem taken {o : Offer} {i : Instruction} (hkind : i.kind = o.kind) (hframe : i.frame = o.frame)
    (hcoordinates : i.coordinates = o.inFrame o.frame) : o.Taken i where
  kind_eq := hkind
  frame_iff := by rw [hframe, o.frame_iff]
  coordinates_eq := by rw [hcoordinates, hframe]
  operandBytes_eq := i.operandBytes_eq
  size_eq := by rw [hcoordinates, o.encodedSize_frame]

theorem Taken.frame_eq {o : Offer} {i : Instruction} (h : o.Taken i) : i.frame = o.frame := by
  have hiff := h.frame_iff.trans o.frame_iff.symm
  cases hi : i.frame with
  | absolute => exact (hiff.1 hi).symm
  | relative =>
    cases ho : o.frame with
    | absolute => exact absurd (hi.symm.trans (hiff.2 ho)) (by decide)
    | relative => rfl

/-- A reader sees the form which was taken. -/
theorem Taken.letters_eq {o : Offer} {i : Instruction} (h : o.Taken i) : i.letters = o.letters := by
  unfold Instruction.letters letters letter
  rw [h.kind_eq, h.frame_eq]

/-! What is measured are the bytes which are written. -/

theorem encodedSize_append (xs ys : List Scalar) :
    encodedSize (xs ++ ys) = encodedSize xs + encodedSize ys := by
  unfold encodedSize
  rw [List.flatMap_append, List.length_append]

theorem encodedSize_single (x : Scalar) : encodedSize [x] = coordinateSize x := by
  unfold encodedSize
  rw [List.flatMap_singleton]
  exact Word.length_bytes _

theorem encodedSize_point (p : Point) : encodedSize p.coordinates = pointSize p := by
  unfold pointSize Point.coordinates
  rw [← List.singleton_append, encodedSize_append, encodedSize_single, encodedSize_single]

theorem encodedSize_operands (f : Frame) (os : List Operand) :
    encodedSize (os.flatMap fun o => (o.inFrame f).coordinates) = Operand.size f os := by
  induction os with
  | nil => rfl
  | cons o os ih =>
    rw [List.flatMap_cons, encodedSize_append, encodedSize_point, ih, Operand.size]

theorem frame_operands (kind : CommandKind) (os : List Operand) :
    (ofOperands kind os).frame = Operand.shorter os := by
  unfold frame Operand.shorter
  rw [← encodedSize_operands .absolute os, ← encodedSize_operands .relative os]
  rfl

theorem inFrame_operands (kind : CommandKind) (os : List Operand) (f : Frame) :
    (ofOperands kind os).inFrame f = os.flatMap fun o => (o.inFrame f).coordinates := by
  cases f <;> rfl

/-- The instruction of operands in their shorter form. -/
theorem taken_operands {kind : CommandKind} {os : List Operand} {i : Instruction}
    (hkind : i.kind = kind) (hframe : i.frame = Operand.shorter os)
    (hcoordinates : i.coordinates =
      os.flatMap fun o => (o.inFrame (Operand.shorter os)).coordinates) :
    (ofOperands kind os).Taken i := by
  refine taken hkind (hframe.trans (frame_operands kind os).symm) ?_
  rw [inFrame_operands, frame_operands, hcoordinates]

/-- The instruction of a line along an axis. -/
theorem taken_forms {kind : CommandKind} (position : Scalar) {forms : Scalar × Scalar}
    {i : Instruction} (hkind : i.kind = kind) (hframe : i.frame = (Pen.axisLine position forms).1)
    (hcoordinates : i.coordinates = [(Pen.axisLine position forms).2.1]) :
    (ofForms kind forms).Taken i := by
  have hframe' : (ofForms kind forms).frame =
      if coordinateSize forms.1 < coordinateSize forms.2 then .absolute else .relative := by
    unfold frame ofForms
    rw [encodedSize_single, encodedSize_single]
  unfold Pen.axisLine at hframe hcoordinates
  refine taken hkind ?_ ?_
  · rw [hframe, hframe']
    split <;> rfl
  · rw [hcoordinates, hframe']
    split <;> rfl

end Offer

/-! ## §3. Every command takes its offers. -/

namespace Pen

theorem closeMove_taken (pen : Pen) (target : Point) :
    (pen.moveOffer target).Taken (pen.closeMove target).1 :=
  Offer.taken_operands rfl rfl rfl

theorem draw_horizontal (pen : Pen) (t : Transform) (f : Frame) (x : Scalar) :
    (pen.draw t (.horizontalTo f x)).1 =
      [.horizontal (axisLine pen.position.x (axisForms f pen.position.x (t.applyX x) (t.scale * x))).1
        (axisLine pen.position.x (axisForms f pen.position.x (t.applyX x) (t.scale * x))).2.1] := by
  unfold draw
  simp only

theorem draw_vertical (pen : Pen) (t : Transform) (f : Frame) (y : Scalar) :
    (pen.draw t (.verticalTo f y)).1 =
      [.vertical (axisLine pen.position.y (axisForms f pen.position.y (t.applyY y) (t.scale * y))).1
        (axisLine pen.position.y (axisForms f pen.position.y (t.applyY y) (t.scale * y))).2.1] := by
  unfold draw
  simp only

/-- A cubic with both control points. -/
theorem cubic_taken (first second target : Operand) :
    (Offer.ofOperands .cubic [first, second, target]).Taken
      (.cubic (Operand.shorter [first, second, target])
        (first.inFrame (Operand.shorter [first, second, target]))
        (second.inFrame (Operand.shorter [first, second, target]))
        (target.inFrame (Operand.shorter [first, second, target]))) := by
  refine Offer.taken_operands rfl rfl ?_
  rw [List.flatMap_cons, List.flatMap_cons, List.flatMap_singleton]
  rfl

theorem draw_taken (pen : Pen) (t : Transform) (c : Command) :
    List.Forall₂ Offer.Taken (pen.offer? t c).toList (pen.draw t c).1 := by
  cases c with
  | moveTo f p => exact .cons (pen.closeMove_taken _) .nil
  | lineTo f p => exact .cons (Offer.taken_operands rfl rfl rfl) .nil
  | horizontalTo f x =>
    rw [draw_horizontal]
    exact .cons (Offer.taken_forms pen.position.x rfl rfl rfl) .nil
  | verticalTo f y =>
    rw [draw_vertical]
    exact .cons (Offer.taken_forms pen.position.y rfl rfl rfl) .nil
  | cubicTo f a b p => exact .cons (cubic_taken _ _ _) .nil
  | smoothCubicTo f b p =>
    unfold offer? draw
    simp only
    split
    · exact .cons (Offer.taken_operands rfl rfl rfl) .nil
    · exact .cons (cubic_taken _ _ _) .nil
  | quadTo f a p => exact .cons (Offer.taken_operands rfl rfl rfl) .nil
  | smoothQuadTo f p =>
    unfold offer? draw
    simp only
    split
    · exact .cons (Offer.taken_operands rfl rfl rfl) .nil
    · exact .cons (Offer.taken_operands rfl rfl rfl) .nil
  | arcTo f shape p => exact .cons (Offer.taken_operands rfl rfl rfl) .nil
  | close => exact .nil

/-- **A command is written in its shorter form**, and so is the move before it. -/
theorem step_taken (pen : Pen) (t : Transform) (c : Command) :
    List.Forall₂ Offer.Taken (pen.offers t c) (pen.step t c).1 := by
  unfold offers step
  split
  · exact .cons (pen.closeMove_taken pen.start) ((pen.closeMove pen.start).2.draw_taken t c)
  · exact pen.draw_taken t c

theorem drawAll_taken (pen : Pen) (t : Transform) (cs : List Command) :
    List.Forall₂ Offer.Taken (pen.offersAll t cs) (pen.drawAll t cs) := by
  induction cs generalizing pen with
  | nil => exact .nil
  | cons c cs ih => exact List.rel_append (pen.step_taken t c) (ih _)

end Pen

/-! ## §4. What a reader sees. -/

namespace Plotter

theorem step_letters (p : Plotter) (i : Instruction) : (p.step i).1.map (·.letter) = i.letters := by
  cases i with
  | endPath => rfl
  | line f _ | smoothQuad f _ | quad f _ _ | smoothCubic f _ _ | cubic f _ _ _ | arc f _ _ _ _ _
  | horizontal f _ | vertical f _ | closeMove f _ => cases f <;> rfl

/-- The letters of strokes are those of the instructions. -/
theorem run_letters (p : Plotter) (is : List Instruction) :
    (p.run is).map (·.letter) = is.flatMap Instruction.letters := by
  induction is generalizing p with
  | nil => rfl
  | cons i is ih =>
    show ((p.step i).1 ++ (p.step i).2.run is).map _ = _
    rw [List.map_append, step_letters, ih, List.flatMap_cons]

end Plotter

theorem Instruction.letters_recovered (i : Instruction) : i.recovered.letters = i.letters := by
  cases i <;> rfl

theorem flatMap_letters {os : List Offer} {is : List Instruction} (h : List.Forall₂ Offer.Taken os is) :
    is.flatMap Instruction.letters = os.flatMap Offer.letters := by
  induction h with
  | nil => rfl
  | cons hi _ ih => rw [List.flatMap_cons, List.flatMap_cons, hi.letters_eq, ih]

/-- The letters of a path are its first move, the forms which were taken, and the
    close at its end. -/
theorem strokes_letters {start : Point} {os : List Offer} {is : List Instruction}
    (h : List.Forall₂ Offer.Taken os is) :
    ((⟨start, is ++ [.endPath]⟩ : Outline).recovered.strokes).map (·.letter) =
      'M' :: (os.flatMap Offer.letters ++ ['Z']) := by
  have hread : ((is ++ [Instruction.endPath]).map Instruction.recovered).flatMap Instruction.letters =
      os.flatMap Offer.letters ++ ['Z'] := by
    rw [List.flatMap_map]
    simp only [Instruction.letters_recovered]
    rw [List.flatMap_append, flatMap_letters h]
    rfl
  show 'M' :: (Plotter.run _ ((is ++ [Instruction.endPath]).map Instruction.recovered)).map _ = _
  rw [Plotter.run_letters, hread]

/-! ## §5. The move which is inserted. -/

/-- Zero is read back as a zero. -/
theorem recoverCoordinate_zero {x : Scalar} (hx : x.isFinite = true) (hzero : x.value = 0) :
    (recoverCoordinate x).isFinite = true ∧ (recoverCoordinate x).value = 0 := by
  have hkept : quantizeCoordinate x = x :=
    quantizeCoordinate_grid hx (n := 0) (by rw [hzero]; norm_num) (by norm_num) (by norm_num)
  have hagrees := recoverCoordinate_agrees x
  rw [hkept] at hagrees
  exact ⟨hagrees.isFinite.trans hx, hagrees.value.trans hzero⟩

/-- The offset of a finite point from itself is zero. -/
theorem sub_self_agrees {p : Point} (hfinite : ∀ a, (p.along a).isFinite = true) :
    (p - p).Agrees .origin := by
  obtain ⟨hx, hvx⟩ := Point.sub_self_along hfinite .horizontal
  obtain ⟨hy, hvy⟩ := Point.sub_self_along hfinite .vertical
  obtain ⟨h0, hv0⟩ := Scalar.finite_zero
  exact ⟨Scalar.agrees_of_value hx h0 (hvx.trans hv0.symm),
    Scalar.agrees_of_value hy h0 (hvy.trans hv0.symm)⟩

/-- **To draw after a close** a pen writes a move by zero in two bytes.  It stays in
    place, and so does every plotter which reads the move. -/
theorem Pen.restarts {pen : Pen} (t : Transform) {c : Command} (hclosed : pen.closed = true)
    (hdraws : needsOpen c = true) (hfinite : pen.start.All fun x => x.isFinite = true) :
    ∃ offset is, (pen.step t c).1 = .closeMove .relative offset :: is ∧ offset.Agrees .origin ∧
      (Instruction.closeMove .relative offset).operandBytes = [0x80, 0x80] ∧
      (pen.step t c).2.start.Agrees pen.start ∧
      ∀ p : Plotter,
        (p.step (Instruction.closeMove .relative offset).recovered).2.start.Agrees p.start := by
  have halong := fun a => hfinite.along a
  have hzero := Point.sub_self_along halong
  have horigin := sub_self_agrees halong
  have hmove : (pen.closeMove pen.start).1 = .closeMove .relative (pen.start - pen.start) := by
    unfold closeMove
    simp only
    rw [Operand.shorter_self halong]
    rfl
  have hstep : pen.step t c = ((pen.closeMove pen.start).1 :: ((pen.closeMove pen.start).2.draw t c).1,
      ((pen.closeMove pen.start).2.draw t c).2) := by
    unfold step
    rw [hclosed, hdraws]
    rfl
  refine ⟨pen.start - pen.start, _, by rw [hstep, hmove], horigin, ?_, ?_, fun p => ?_⟩
  · exact (pointBytes_agrees horigin).trans (by decide +kernel)
  · rw [hstep]
    show ((pen.closeMove pen.start).2.draw t c).2.start.Agrees pen.start
    rw [(Pen.draw_keeps _ t hdraws).1]
    exact ⟨pen.closeMove_start halong .horizontal, pen.closeMove_start halong .vertical⟩
  · have hrecovered := fun a => recoverCoordinate_zero (hzero a).1 (hzero a).2
    exact ⟨.add_zero (hrecovered .horizontal).1 (hrecovered .horizontal).2,
      .add_zero (hrecovered .vertical).1 (hrecovered .vertical).2⟩

/-! ## §6. Paths. -/

/-- The letter of an absolute form is upper case, that of a relative one is not. -/
theorem Offer.isUpper_letter (o : Offer) :
    o.letter.isUpper = true ↔ encodedSize o.absolute < encodedSize o.relative := by
  rw [← o.frame_iff]
  unfold letter
  cases o.kind <;> cases o.frame <;> decide

/-- **The shorter form is written, and seen.**  Every command is written in the form
    of the least size, the relative one on a tie.  In the letters of a path which is
    read back, after the first move and but for the closes, an upper case letter
    stands for every absolute form that is strictly shorter, and for nothing else.  To
    draw after a close, two bytes of zero offset bring writer and reader to the start
    of the closed sub-path if that is finite. -/
theorem greedy_choice (t : Transform) :
    (∀ pen c, List.Forall₂ Offer.Taken (Pen.offers pen t c) (pen.step t c).1) ∧
    (∀ f target cs a, IsAdjustment a →
      let start := quantize (t.apply target)
      let offers := (Pen.startingAt start).offersAll t cs
      ∃ body read, Outline.ofCommands? t (.moveTo f target :: cs) = some ⟨start, body ++ [.endPath]⟩ ∧
        List.Forall₂ Offer.Taken offers body ∧
        Reads item (Outline.bytes a ⟨start, body ++ [.endPath]⟩) (.path a read) ∧
        read.strokes.map (·.letter) = 'M' :: (offers.flatMap Offer.letters ++ ['Z']) ∧
        ∀ o ∈ offers, o.letter.isUpper = true ↔ encodedSize o.absolute < encodedSize o.relative) ∧
    ∀ pen c, Pen.closed pen = true → Pen.needsOpen c = true →
      (pen.start.All fun x => x.isFinite = true) →
      ∃ offset is, (pen.step t c).1 = .closeMove .relative offset :: is ∧ offset.Agrees .origin ∧
        (Instruction.closeMove .relative offset).operandBytes = [0x80, 0x80] ∧
        (pen.step t c).2.start.Agrees pen.start ∧
        ∀ p : Plotter,
          (p.step (Instruction.closeMove .relative offset).recovered).2.start.Agrees p.start := by
  refine ⟨fun pen c => pen.step_taken t c, ?_, fun pen c => Pen.restarts t⟩
  intro f target cs a ha start offers
  have ho : Outline.ofCommands? t (.moveTo f target :: cs) =
      some ⟨start, (Pen.startingAt start).drawAll t cs ++ [.endPath]⟩ := rfl
  have htaken := (Pen.startingAt start).drawAll_taken t cs
  exact ⟨_, _, ho, htaken, item_reads_path ha (Outline.ofCommands?_ended ho), strokes_letters htaken,
    fun o _ => o.isUpper_letter⟩

/-- Two lines from a start which is on no grid, a close, and one more line. -/
def reopened : List Command :=
  [.lineTo .relative ⟨1.0, 0.0⟩, .lineTo .absolute ⟨2.0, 0.0⟩, .close, .lineTo .relative ⟨0.0, 1.0⟩]

/-- The second line is shorter in absolute coordinates, and a move is inserted before
    the third one. -/
theorem greedy_choice_reopened :
    ∃ o read, Outline.ofCommands? ⟨1.0, .origin⟩ (.moveTo .absolute ⟨0.3, 0.0⟩ :: reopened) = some o ∧
      Reads item (o.bytes 0) (.path 0 read) ∧ read.strokes.map (·.letter) = "MlLZmlZ".toList := by
  obtain ⟨body, read, ho, -, hread, hletters, -⟩ :=
    (greedy_choice ⟨1.0, .origin⟩).2.1 .absolute ⟨0.3, 0.0⟩ reopened 0 (Nat.zero_le _)
  exact ⟨_, read, ho, hread, hletters.trans (by decide +kernel)⟩

end Icon

end VectorIcon

/-
  VectorIcon.Proofs.Icon.Tracking
  ────────────────────────────────
  **THE PEN STANDS WHERE THE READER WILL BE.**

  The writer chooses offsets from the place of its pen, the reader adds them to
  the place of its plotter.  No rounding may come between the two:

      Tracks.step     — a plotter which follows the quantized instructions is
                        exactly where the pen is, after every command
      Plotter.Agrees  — a plotter which follows what is read instead agrees
                        with it, number by number

  `pen_tracks_plotter` puts both together, for the bytes of every part of a path.
-/
import VectorIcon.Proofs.Icon.Quantize
import VectorIcon.Proofs.Icon.Simulation

namespace VectorIcon

namespace Icon

/-! ## §1. The pen and a plotter of quantized instructions. -/

/-- The pen after commands. -/
def Pen.after (pen : Pen) (t : Transform) (cs : List Command) : Pen :=
  cs.foldl (fun pen c => (pen.step t c).2) pen

/-- Execute a close which the instructions still owe. -/
def Plotter.settle (p : Plotter) (closed : Bool) : Plotter := if closed then p.close.2 else p

/-- The plotter is where the pen is, once a pending close is executed. -/
structure Tracks (pen : Pen) (p : Plotter) : Prop where
  position : (p.settle pen.closed).position = pen.position
  start : p.start = pen.start
  family : (p.settle pen.closed).control.map Prod.fst = pen.family

/-- The first control point of a smooth curve: the plotter reflects the latest
    one of its family, or the pen writes its own place. -/
inductive Pen.Implies (pen : Pen) (p : Plotter) (family : CurveFamily) (g : Frame) : Point → Prop
  | reflected (h : pen.family = some family) : Implies pen p family g (p.smoothControl family)
  | here (h : ¬ pen.family = some family) : Implies pen p family g (pen.arrival g pen.here)

namespace Tracks

variable {t : Transform} {pen : Pen} {p : Plotter}

theorem starting (q : Point) : Tracks (.startingAt q) (.startingAt q) := ⟨rfl, rfl, rfl⟩

theorem settle_start (h : Tracks pen p) : (p.settle pen.closed).start = pen.start := by
  unfold Plotter.settle
  split
  · exact h.start
  · exact h.start

/-- On an open sub-path nothing is pending. -/
theorem position_open (h : Tracks pen p) (hopen : pen.closed = false) : p.position = pen.position := by
  have hposition := h.position
  rw [hopen] at hposition
  exact hposition

/-- The plotter arrives where the pen does. -/
theorem point_arrival (h : p.position = pen.position) (f : Frame) (o : Operand) :
    p.point f ((o.inFrame f).map quantizeCoordinate) = pen.arrival f o := by
  cases f with
  | absolute => rfl
  | relative =>
    show p.position + _ = pen.position + _
    rw [h]
    rfl

/-- A line along an axis, on one coordinate. -/
theorem coordinate_axisLine (position : Scalar) (forms : Scalar × Scalar) :
    Plotter.coordinate (Pen.axisLine position forms).1 position
      (quantizeCoordinate (Pen.axisLine position forms).2.1) = (Pen.axisLine position forms).2.2 := by
  unfold Pen.axisLine
  split <;> rfl

/-- After a close and a move both stand at its target. -/
theorem closeMove (h : p.start = pen.start) (target : Point) :
    Tracks (pen.closeMove target).2
      (p.step ((pen.closeMove target).1.readAs quantizeCoordinate)).2 := by
  unfold Pen.closeMove
  simp only
  generalize Operand.shorter [(⟨target, target - pen.start⟩ : Operand)] = f
  have hclosed : p.close.2.position = { pen with position := pen.start }.position := h
  have harrival := point_arrival hclosed f ⟨target, target - pen.start⟩
  show Tracks (.startingAt _) (.startingAt (p.close.2.point f _))
  rw [harrival]
  exact starting _

/-- Drawing moves both to one point. -/
theorem arrived (h : Tracks pen p) (hopen : pen.closed = false) {arrival q : Point} (hq : q = arrival)
    {control : Option (CurveFamily × Point)} {family : Option CurveFamily}
    (hfamily : control.map Prod.fst = family) :
    Tracks { pen with position := arrival, family := family } ⟨q, p.start, control⟩ := by
  refine ⟨?_, h.start, ?_⟩
  · show (Plotter.settle _ pen.closed).position = arrival
    rw [hopen]
    exact hq
  · show (Plotter.settle _ pen.closed).control.map Prod.fst = _
    rw [hopen]
    exact hfamily

/-- An instruction which draws to an operand. -/
theorem drawn (h : Tracks pen p) (hopen : pen.closed = false) (f : Frame) (o : Operand)
    {control : Option (CurveFamily × Point)} {family : Option CurveFamily}
    (hfamily : control.map Prod.fst = family) :
    Tracks (pen.drawn f o family)
      ⟨p.point f ((o.inFrame f).map quantizeCoordinate), p.start, control⟩ :=
  h.arrived hopen (point_arrival (h.position_open hopen) f o) hfamily

/-- A plotter which reads the quantized start of a path starts there. -/
theorem initial (q : Point) :
    Tracks (.startingAt (quantize q)) (.startingAt ((quantize q).map quantizeCoordinate)) := by
  have hkept : (quantize q).map quantizeCoordinate = quantize q := by
    show Point.mk (quantizeCoordinate (quantizeCoordinate q.x))
      (quantizeCoordinate (quantizeCoordinate q.y)) = quantize q
    rw [quantizeCoordinate_idempotent, quantizeCoordinate_idempotent]
    rfl
  rw [hkept]
  exact starting _

/-- **A smooth quadratic**, written as one or in full. -/
theorem smoothQuad (h : Tracks pen p) (hopen : pen.closed = false) (f : Frame) (target : Point) :
    ∃ g C, pen.Implies p .quad g C ∧
      (pen.draw t (.smoothQuadTo f target)).2 = pen.drawn g (pen.operand t f target) (some .quad) ∧
      p.segments ((pen.draw t (.smoothQuadTo f target)).1.map (Instruction.readAs quantizeCoordinate)) =
        [.quad C (pen.arrival g (pen.operand t f target))] ∧
      (p.after ((pen.draw t (.smoothQuadTo f target)).1.map
        (Instruction.readAs quantizeCoordinate))).control = some (.quad, C) := by
  have harrival := point_arrival (h.position_open hopen)
  by_cases hfamily : pen.family = some .quad
  · have hdraw : pen.draw t (.smoothQuadTo f target) =
        ([.smoothQuad (Operand.shorter [pen.operand t f target])
          ((pen.operand t f target).inFrame (Operand.shorter [pen.operand t f target]))],
          pen.drawn (Operand.shorter [pen.operand t f target]) (pen.operand t f target)
            (some .quad)) := if_pos hfamily
    refine ⟨_, _, .reflected hfamily, congrArg Prod.snd hdraw, ?_, ?_⟩
    · rw [hdraw, ← harrival]
      rfl
    · rw [hdraw]
      rfl
  · -- the pen's own place is written as the control point which is missing
    have hdraw : pen.draw t (.smoothQuadTo f target) =
        Pen.draw.quad pen pen.here (pen.operand t f target) := if_neg hfamily
    refine ⟨_, _, .here hfamily, congrArg Prod.snd hdraw, ?_, ?_⟩
    · rw [hdraw, ← harrival, ← harrival]
      rfl
    · rw [hdraw, ← harrival]
      rfl

/-- **A smooth cubic**, written as one or in full. -/
theorem smoothCubic (h : Tracks pen p) (hopen : pen.closed = false) (f : Frame)
    (second target : Point) :
    ∃ g C, pen.Implies p .cubic g C ∧
      (pen.draw t (.smoothCubicTo f second target)).2 =
        pen.drawn g (pen.operand t f target) (some .cubic) ∧
      p.segments
        ((pen.draw t (.smoothCubicTo f second target)).1.map (Instruction.readAs quantizeCoordinate)) =
        [.cubic C (pen.arrival g (pen.operand t f second)) (pen.arrival g (pen.operand t f target))] ∧
      (p.after ((pen.draw t (.smoothCubicTo f second target)).1.map
        (Instruction.readAs quantizeCoordinate))).control =
          some (.cubic, pen.arrival g (pen.operand t f second)) := by
  have harrival := point_arrival (h.position_open hopen)
  by_cases hfamily : pen.family = some .cubic
  · have hdraw : pen.draw t (.smoothCubicTo f second target) =
        ([.smoothCubic (Operand.shorter [pen.operand t f second, pen.operand t f target])
          ((pen.operand t f second).inFrame
            (Operand.shorter [pen.operand t f second, pen.operand t f target]))
          ((pen.operand t f target).inFrame
            (Operand.shorter [pen.operand t f second, pen.operand t f target]))],
          pen.drawn (Operand.shorter [pen.operand t f second, pen.operand t f target])
            (pen.operand t f target) (some .cubic)) := if_pos hfamily
    refine ⟨_, _, .reflected hfamily, congrArg Prod.snd hdraw, ?_, ?_⟩
    · rw [hdraw, ← harrival, ← harrival]
      rfl
    · rw [hdraw, ← harrival]
      rfl
  · have hdraw : pen.draw t (.smoothCubicTo f second target) =
        Pen.draw.cubic pen pen.here (pen.operand t f second) (pen.operand t f target) :=
      if_neg hfamily
    refine ⟨_, _, .here hfamily, congrArg Prod.snd hdraw, ?_, ?_⟩
    · rw [hdraw, ← harrival, ← harrival, ← harrival]
      rfl
    · rw [hdraw, ← harrival]
      rfl

/-- **A command on an open sub-path** keeps pen and plotter together. -/
theorem draw (h : Tracks pen p) (hopen : pen.closed = false) {c : Command}
    (hc : Pen.needsOpen c = true) :
    Tracks (pen.draw t c).2 (p.after ((pen.draw t c).1.map (Instruction.readAs quantizeCoordinate))) := by
  have hposition := h.position_open hopen
  cases c with
  | moveTo | close => cases hc
  | lineTo f target => exact h.drawn hopen _ _ rfl
  | horizontalTo f x =>
    -- the other coordinate is that of the plotter, which is where the pen is
    refine h.arrived hopen ?_ rfl
    show (⟨Plotter.coordinate _ p.position.x _, p.position.y⟩ : Point) = _
    rw [hposition]
    exact congrArg (Point.mk · pen.position.y) (coordinate_axisLine pen.position.x _)
  | verticalTo f y =>
    refine h.arrived hopen ?_ rfl
    show (⟨p.position.x, Plotter.coordinate _ p.position.y _⟩ : Point) = _
    rw [hposition]
    exact congrArg (Point.mk pen.position.x) (coordinate_axisLine pen.position.y _)
  | cubicTo f first second target => exact h.drawn hopen _ _ rfl
  | smoothCubicTo f second target =>
    -- written smooth or in full, it leads to the same operand
    unfold Pen.draw
    simp only
    split
    · exact h.drawn hopen _ _ rfl
    · exact h.drawn hopen _ _ rfl
  | quadTo f control target => exact h.drawn hopen _ _ rfl
  | smoothQuadTo f target =>
    unfold Pen.draw
    simp only
    split
    · exact h.drawn hopen _ _ rfl
    · exact h.drawn hopen _ _ rfl
  | arcTo f shape target => exact h.drawn hopen _ _ rfl

theorem close (h : Tracks pen p) : Tracks (pen.draw t .close).2 p :=
  ⟨h.start, h.start, rfl⟩

theorem move (h : Tracks pen p) (f : Frame) (target : Point) :
    Tracks (pen.draw t (.moveTo f target)).2
      (p.after ((pen.draw t (.moveTo f target)).1.map (Instruction.readAs quantizeCoordinate))) :=
  closeMove h.start _

/-- **Every command** keeps pen and plotter together. -/
theorem step (h : Tracks pen p) (c : Command) :
    Tracks (pen.step t c).2 (p.after ((pen.step t c).1.map (Instruction.readAs quantizeCoordinate))) := by
  by_cases hc : Pen.needsOpen c = true
  · by_cases hclosed : pen.closed = true
    · -- first a new sub-path where the pen is
      have hrestart := closeMove h.start pen.start
      unfold Pen.step
      rw [hclosed, hc]
      exact hrestart.draw rfl hc
    · rw [Stage.step_open t (Bool.eq_false_iff.2 hclosed)]
      exact h.draw (Bool.eq_false_iff.2 hclosed) hc
  · rw [Stage.step_idle t pen (Bool.eq_false_iff.2 hc)]
    cases c with
    | close => exact h.close
    | moveTo f target => exact h.move f target
    | lineTo | horizontalTo | verticalTo | cubicTo | smoothCubicTo | quadTo | smoothQuadTo | arcTo =>
      exact absurd rfl hc

/-- **All commands** keep pen and plotter together. -/
theorem steps (h : Tracks pen p) (cs : List Command) :
    Tracks (pen.after t cs)
      (p.after ((pen.drawAll t cs).map (Instruction.readAs quantizeCoordinate))) := by
  -- the induction is on the commands; each of them leads to the next pair of machines
  induction cs generalizing pen p with
  | nil => exact h
  | cons c cs ih =>
    have hnext := ih (h.step (t := t) c)
    show Tracks ((pen.step t c).2.after t cs) (p.after (((pen.step t c).1 ++ _).map _))
    rw [List.map_append]
    unfold Plotter.after at hnext ⊢
    rwa [List.foldl_append]

end Tracks

/-! ## §2. What is read agrees with what is quantized. -/

/-- Plotters which no segment tells apart. -/
structure Plotter.Agrees (p q : Plotter) : Prop where
  position : p.position.Agrees q.position
  start : p.start.Agrees q.start
  control : Option.Rel (fun c d => c.1 = d.1 ∧ c.2.Agrees d.2) p.control q.control

namespace Plotter.Agrees

variable {p q : Plotter}

theorem starting {a b : Point} (h : a.Agrees b) : Agrees (.startingAt a) (.startingAt b) :=
  ⟨h, h, .none⟩

theorem close (h : p.Agrees q) : p.close.2.Agrees q.close.2 := ⟨h.start, h.start, .none⟩

theorem settle (h : p.Agrees q) (closed : Bool) : (p.settle closed).Agrees (q.settle closed) := by
  unfold Plotter.settle
  split
  · exact h.close
  · exact h

theorem point (h : p.Agrees q) (f : Frame) {a b : Point} (hab : a.Agrees b) :
    (p.point f a).Agrees (q.point f b) := by
  cases f with
  | absolute => exact hab
  | relative => exact h.position.add hab

theorem coordinate (f : Frame) {a b c d : Scalar} (hab : a.Agrees b) (hcd : c.Agrees d) :
    (Plotter.coordinate f a c).Agrees (Plotter.coordinate f b d) := by
  cases f with
  | absolute => exact hcd
  | relative => exact hab.add hcd

theorem smoothControl (h : p.Agrees q) (family : CurveFamily) :
    (p.smoothControl family).Agrees (q.smoothControl family) := by
  have hcontrol := h.control
  unfold Plotter.smoothControl
  generalize p.control = c at hcontrol
  generalize q.control = d at hcontrol
  cases hcontrol with
  | none => exact h.position
  | @some a b hab =>
    obtain ⟨f, c⟩ := a
    obtain ⟨g, d⟩ := b
    obtain ⟨hfg, hcd⟩ := hab
    simp only at hfg hcd ⊢
    rw [hfg]
    split
    · exact hcd.reflect h.position
    · exact h.position

theorem family (h : p.Agrees q) : p.control.map Prod.fst = q.control.map Prod.fst := by
  have hcontrol := h.control
  generalize p.control = c at hcontrol
  generalize q.control = d at hcontrol
  cases hcontrol with
  | none => rfl
  | some hab => exact congrArg some hab.1

variable {read read' : Scalar → Scalar}

/-- **One instruction**, read in two ways that agree, draws segments that agree
    and leaves plotters that agree. -/
theorem step (hread : ∀ x, (read x).Agrees (read' x)) (h : p.Agrees q) (i : Instruction) :
    List.Forall₂ (Segment.Matches Point.Agrees Eq) ((p.step (i.readAs read)).1.map (·.segment))
        ((q.step (i.readAs read')).1.map (·.segment)) ∧
      (p.step (i.readAs read)).2.Agrees (q.step (i.readAs read')).2 := by
  have hpoint (f : Frame) (a : Point) : (p.point f (a.map read)).Agrees (q.point f (a.map read')) :=
    h.point f ⟨hread a.x, hread a.y⟩
  cases i with
  | line f target => exact ⟨.cons (.line (hpoint f target)) .nil, hpoint f target, h.start, .none⟩
  | smoothQuad f target =>
    -- the reflected point is drawn to and kept for the next curve
    have hcontrol := h.smoothControl .quad
    exact ⟨.cons (.quad hcontrol (hpoint f target)) .nil, hpoint f target, h.start, .some ⟨rfl, hcontrol⟩⟩
  | quad f control target =>
    exact ⟨.cons (.quad (hpoint f control) (hpoint f target)) .nil, hpoint f target, h.start,
      .some ⟨rfl, hpoint f control⟩⟩
  | smoothCubic f second target =>
    exact ⟨.cons (.cubic (h.smoothControl .cubic) (hpoint f second) (hpoint f target)) .nil,
      hpoint f target, h.start, .some ⟨rfl, hpoint f second⟩⟩
  | cubic f first second target =>
    exact ⟨.cons (.cubic (hpoint f first) (hpoint f second) (hpoint f target)) .nil, hpoint f target,
      h.start, .some ⟨rfl, hpoint f second⟩⟩
  | arc f radii rotation large sweep target =>
    have hradii : (radii.map read).Agrees (radii.map read') := ⟨hread radii.x, hread radii.y⟩
    exact ⟨.cons (.arc hradii rfl (hpoint f target)) .nil, hpoint f target, h.start, .none⟩
  | horizontal f x =>
    have harrival : (⟨Plotter.coordinate f p.position.x (read x), p.position.y⟩ : Point).Agrees
        ⟨Plotter.coordinate f q.position.x (read' x), q.position.y⟩ :=
      ⟨coordinate f h.position.x (hread x), h.position.y⟩
    exact ⟨.cons (.line harrival) .nil, harrival, h.start, .none⟩
  | vertical f y =>
    have harrival : (⟨p.position.x, Plotter.coordinate f p.position.y (read y)⟩ : Point).Agrees
        ⟨q.position.x, Plotter.coordinate f q.position.y (read' y)⟩ :=
      ⟨h.position.x, coordinate f h.position.y (hread y)⟩
    exact ⟨.cons (.line harrival) .nil, harrival, h.start, .none⟩
  | closeMove f target =>
    have harrival : (p.close.2.point f (target.map read)).Agrees (q.close.2.point f (target.map read')) :=
      h.close.point f ⟨hread target.x, hread target.y⟩
    exact ⟨.cons (.close h.start) (.cons (.move harrival) .nil), harrival, harrival, .none⟩
  | endPath => exact ⟨.cons (.close h.start) .nil, h.close⟩

/-- **Instructions in a row**, read in two ways that agree. -/
theorem steps (hread : ∀ x, (read x).Agrees (read' x)) (h : p.Agrees q) (is : List Instruction) :
    List.Forall₂ (Segment.Matches Point.Agrees Eq) (p.segments (is.map (Instruction.readAs read)))
        (q.segments (is.map (Instruction.readAs read'))) ∧
      (p.after (is.map (Instruction.readAs read))).Agrees (q.after (is.map (Instruction.readAs read'))) := by
  -- segments of the first instruction, then those of the rest from where it left off
  induction is generalizing p q with
  | nil => exact ⟨.nil, h⟩
  | cons i is ih =>
    obtain ⟨hfirst, hnext⟩ := h.step hread i
    obtain ⟨hrest, hlast⟩ := ih hnext
    refine ⟨?_, hlast⟩
    show List.Forall₂ _ (List.map _ ((p.step _).1 ++ (p.step _).2.run _))
      (List.map _ ((q.step _).1 ++ (q.step _).2.run _))
    rw [List.map_append, List.map_append]
    exact List.rel_append hfirst hrest

end Plotter.Agrees

/-- An outline is read as it is quantized. -/
theorem Outline.recovered_agrees (o : Outline) :
    List.Forall₂ (Segment.Matches Point.Agrees Eq) o.recovered.segments (o.readAs quantizeCoordinate).segments := by
  have hstart : (o.start.map recoverCoordinate).Agrees (o.start.map quantizeCoordinate) :=
    ⟨recoverCoordinate_agrees _, recoverCoordinate_agrees _⟩
  have hsteps := (Plotter.Agrees.starting hstart).steps recoverCoordinate_agrees o.body
  exact .cons (.move hstart) hsteps.1

/-! ## §3. Parts of a path. -/

/-- The points on which the operands of an instruction land, with numbers read in
    the given way and offsets counted from the given point. -/
def Instruction.landings (read : Scalar → Scalar) (origin : Point) : Instruction → List Point
  | .line f target | .smoothQuad f target | .closeMove f target | .arc f _ _ _ _ target =>
    [land f target]
  | .quad f control target => [land f control, land f target]
  | .smoothCubic f second target => [land f second, land f target]
  | .cubic f first second target => [land f first, land f second, land f target]
  | .horizontal f x => [⟨Plotter.coordinate f origin.x (read x), origin.y⟩]
  | .vertical f y => [⟨origin.x, Plotter.coordinate f origin.y (read y)⟩]
  | .endPath => []
where
  /-- An operand in absolute coordinates. -/
  land (f : Frame) (q : Point) : Point :=
    match f with
    | .absolute => q.map read
    | .relative => origin + q.map read

/-- The point from which the plotter counts the offsets of an instruction. -/
def Plotter.origin (p : Plotter) : Instruction → Point
  | .closeMove _ _ => p.start
  | _ => p.position

/-- **Every operand which is read lands where the writer put it**: on its
    quantized target, or on the reader's own place moved by its quantized
    offset. -/
def LandsAs : Plotter → List Instruction → List Instruction → Prop
  | _, [], [] => True
  | p, i :: is, w :: ws =>
    List.Forall₂ Point.Agrees (i.landings id (p.origin i)) (w.landings quantizeCoordinate (p.origin i)) ∧
      LandsAs (p.step i).2 is ws
  | _, _, _ => False

theorem landings_agree (origin : Point) (i : Instruction) :
    List.Forall₂ Point.Agrees (i.recovered.landings id origin)
      (i.landings quantizeCoordinate origin) := by
  have hnumber := recoverCoordinate_agrees
  -- the numbers agree, and what they are counted from is one and the same point
  have hland (f : Frame) (q : Point) :
      (Instruction.landings.land id origin f (recoverPoint q)).Agrees
        (Instruction.landings.land quantizeCoordinate origin f q) := by
    cases f with
    | absolute => exact ⟨hnumber q.x, hnumber q.y⟩
    | relative => exact (Point.Agrees.refl origin).add ⟨hnumber q.x, hnumber q.y⟩
  cases i with
  | line f target | smoothQuad f target | closeMove f target | arc f _ _ _ _ target =>
    exact .cons (hland f target) .nil
  | quad f control target => exact .cons (hland f control) (.cons (hland f target) .nil)
  | smoothCubic f second target => exact .cons (hland f second) (.cons (hland f target) .nil)
  | cubic f first second target =>
    exact .cons (hland f first) (.cons (hland f second) (.cons (hland f target) .nil))
  | horizontal f x =>
    exact .cons ⟨Plotter.Agrees.coordinate f (.refl origin.x) (hnumber x), .refl origin.y⟩ .nil
  | vertical f y =>
    exact .cons ⟨.refl origin.x, Plotter.Agrees.coordinate f (.refl origin.y) (hnumber y)⟩ .nil
  | endPath => exact .nil

theorem landsAs_recovered (p : Plotter) (ws : List Instruction) :
    LandsAs p (ws.map Instruction.recovered) ws := by
  induction ws generalizing p with
  | nil => trivial
  | cons w ws ih => exact ⟨landings_agree _ w, ih _⟩

/-- Read the opcode byte and the start of a path, and all instructions which
    follow. -/
def readPart (data : List UInt8) : Except DecodeFault (UInt8 × Point × List Instruction) :=
  match (do return (← byte, ← point) : Reading (UInt8 × Point)) data with
  | .error f => .error f
  | .ok ((opcode, start), rest) =>
    match Scan.toEnd run run_takes rest with
    | .error f => .error f
    | .ok runs => .ok (opcode, start, runs.flatten)

theorem readPart_bytes (adjustment : UInt8) (o : Outline) :
    readPart (o.bytes adjustment) =
      .ok (0xc0 ||| adjustment, o.recovered.start, o.body.map Instruction.recovered) := by
  obtain ⟨runs, hruns, hflatten⟩ := instructionBytes_toEnd o.body
  have hstart : Reads (do return (← byte, ← point) : Reading (UInt8 × Point))
      ((0xc0 ||| adjustment) :: pointBytes o.start) (0xc0 ||| adjustment, recoverPoint o.start) :=
    (byte_reads (0xc0 ||| adjustment)).bind ((point_reads o.start).map _)
  unfold readPart Outline.bytes
  rw [← List.cons_append, hstart]
  simp only
  rw [hruns, ← hflatten]
  rfl

/-- **The pen stands where the reader will be.**  After any number of commands,
    the bytes written so far are read as instructions whose operands land where
    the writer put them, and the plotter which followed them agrees with the pen:
    in place, in the start of the sub-path, and in the family of the latest
    curve.  A close which is not written yet is executed first. -/
theorem pen_tracks_plotter (t : Transform) (adjustment : UInt8) (f : Frame) (target : Point)
    (cs : List Command) (k : ℕ) :
    let start := quantize (t.apply target)
    let written := (Pen.startingAt start).drawAll t (cs.take k)
    let pen := (Pen.startingAt start).after t (cs.take k)
    ∃ (origin : Point) (is : List Instruction),
      Outline.ofCommands? t (.moveTo f target :: cs.take k) = some ⟨start, written ++ [.endPath]⟩ ∧
      readPart (Outline.bytes adjustment ⟨start, written⟩) = .ok (0xc0 ||| adjustment, origin, is) ∧
      origin.Agrees start ∧ LandsAs (.startingAt origin) is written ∧
      let plotter := ((Plotter.startingAt origin).after is).settle pen.closed
      plotter.position.Agrees pen.position ∧ plotter.start.Agrees pen.start ∧
        ∀ family, pen.family = some family ↔ ∃ control, plotter.control = some (family, control) := by
  intro start written pen
  refine ⟨_, _, rfl, readPart_bytes adjustment ⟨start, written⟩, ?_, landsAs_recovered _ written, ?_⟩
  · exact ⟨recoverCoordinate_quantized _, recoverCoordinate_quantized _⟩
  · have horigin : (recoverPoint start).Agrees start :=
      ⟨recoverCoordinate_quantized _, recoverCoordinate_quantized _⟩
    have hagrees := (((Plotter.Agrees.starting horigin).steps recoverCoordinate_agrees written).2).settle
      pen.closed
    have htracks := (Tracks.starting start).steps (t := t) (cs.take k)
    -- what is read agrees with what is quantized, and that is exactly where the pen is
    refine ⟨hagrees.position.trans ?_, hagrees.start.trans ?_, fun family => ?_⟩
    · rw [htracks.position]
    · rw [htracks.settle_start]
    · rw [← htracks.family, ← hagrees.family, Option.map_eq_some_iff]
      constructor
      · rintro ⟨⟨_, control⟩, hcontrol, rfl⟩
        exact ⟨control, hcontrol⟩
      · rintro ⟨control, hcontrol⟩
        exact ⟨(family, control), hcontrol, rfl⟩

end Icon

end VectorIcon

/-
  VectorIcon.Proofs.Icon.Lockstep
  ────────────────────────────────
  **TWO PENS WHICH WRITE THE SAME BYTES.**

  The bytes of a number do not tell the two zeros apart, and the bytes of
  instructions depend on nothing but opcodes and operand bytes
  (`instructionBytes_alike`).  So two pens write the same as long as they agree
  and draw commands which are twins: what one pen sees of its command agrees
  with what the other pen sees of its own (`Pen.draw_twins`).  The commands
  themselves need not be the same, since a pen sees an operand in both forms.
  A relation of two drawings under way which leads from twins to twins is a
  `Lockstep`, and drawings in lockstep are written alike to their ends:

      Lockstep.drawAll   — the rest of two paths, from any two pens on
      Pen.drawAll_equal  — equal commands, drawn by pens that agree
-/
import VectorIcon.Icon.Pen
import VectorIcon.Proofs.Icon.Simulation
import VectorIcon.Proofs.Number.Agreement

namespace VectorIcon

/-! ## §1. Numbers. -/

namespace Scalar.Agrees

variable {a b : Scalar}

/-- Numbers that agree are one number, or the two zeros. -/
theorem eq_or_zeros (h : a.Agrees b) : a = b ∨ a = 0.0 ∧ b = -0.0 ∨ a = -0.0 ∧ b = 0.0 := by
  have hpositive {x : Scalar} (hx : x.unpacked = .zero .positive) : x = 0.0 := unpacked_injective hx
  have hnegative {x : Scalar} (hx : x.unpacked = .zero .negative) : x = -0.0 := unpacked_injective hx
  rcases (agrees_iff a b).1 h with heq | ⟨s, s', ha, hb⟩
  · exact .inl (unpacked_injective heq)
  · cases s with
    | positive =>
      cases s' with
      | positive => exact .inl (unpacked_injective (ha.trans hb.symm))
      | negative => exact .inr (.inl ⟨hpositive ha, hnegative hb⟩)
    | negative =>
      cases s' with
      | positive => exact .inr (.inr ⟨hnegative ha, hpositive hb⟩)
      | negative => exact .inl (unpacked_injective (ha.trans hb.symm))

/-- What does not tell the zeros apart does not tell numbers apart that agree. -/
theorem congr {α : Type} {f : Scalar → α} (hzero : f 0.0 = f (-0.0)) (h : a.Agrees b) : f a = f b := by
  rcases h.eq_or_zeros with rfl | ⟨rfl, rfl⟩ | ⟨rfl, rfl⟩
  · rfl
  · exact hzero
  · exact hzero.symm

end Scalar.Agrees

namespace Point.Agrees

variable {p q p' q' : Point}

/-- Points which compare equal agree. -/
theorem of_beq (h : (p == q) = true) : p.Agrees q :=
  ⟨.inl (Bool.and_eq_true_iff.1 h).1, .inl (Bool.and_eq_true_iff.1 h).2⟩

theorem sub (hp : p.Agrees p') (hq : q.Agrees q') : (p - q).Agrees (p' - q') :=
  ⟨hp.x.sub hq.x, hp.y.sub hq.y⟩

/-- The transform keeps points together. -/
theorem apply (h : p.Agrees q) (t : Transform) : (t.apply p).Agrees (t.apply q) :=
  ⟨(Scalar.Agrees.refl _).mul (h.x.sub (.refl _)), (Scalar.Agrees.refl _).mul (h.y.sub (.refl _))⟩

theorem applyVector (h : p.Agrees q) (t : Transform) : (t.applyVector p).Agrees (t.applyVector q) :=
  ⟨(Scalar.Agrees.refl _).mul h.x, (Scalar.Agrees.refl _).mul h.y⟩

end Point.Agrees

namespace Icon

section Numbers

variable {a b : Scalar} {p q : Point}

theorem ofCoordinate_agrees (h : a.Agrees b) : Word.ofCoordinate a = Word.ofCoordinate b :=
  h.congr (by decide +kernel)

theorem coordinateBytes_agrees (h : a.Agrees b) : coordinateBytes a = coordinateBytes b :=
  congrArg Word.bytes (ofCoordinate_agrees h)

theorem coordinateSize_agrees (h : a.Agrees b) : coordinateSize a = coordinateSize b :=
  congrArg Word.size (ofCoordinate_agrees h)

theorem quantizeCoordinate_agrees (h : a.Agrees b) :
    (quantizeCoordinate a).Agrees (quantizeCoordinate b) := by
  unfold quantizeCoordinate
  rw [ofCoordinate_agrees h]
  split
  · exact .refl _
  · exact h

/-- The bytes of a rotation. -/
theorem rotationBytes_agrees (h : a.Agrees b) :
    zeroToOneBytes (a.withinTurn / Scalar.turn) = zeroToOneBytes (b.withinTurn / Scalar.turn) :=
  h.congr (f := fun r => zeroToOneBytes (r.withinTurn / Scalar.turn)) (by decide +kernel)

theorem pointBytes_agrees (h : p.Agrees q) : pointBytes p = pointBytes q :=
  congrArg₂ (· ++ ·) (coordinateBytes_agrees h.x) (coordinateBytes_agrees h.y)

theorem pointSize_agrees (h : p.Agrees q) : pointSize p = pointSize q :=
  congrArg₂ (· + ·) (coordinateSize_agrees h.x) (coordinateSize_agrees h.y)

theorem quantize_agrees (h : p.Agrees q) : (quantize p).Agrees (quantize q) :=
  ⟨quantizeCoordinate_agrees h.x, quantizeCoordinate_agrees h.y⟩

end Numbers

/-! ## §2. Instructions. -/

/-- Instructions of the same kind and form whose points agree, and whose rotations
    have the same bytes. -/
inductive Instruction.Alike : Instruction → Instruction → Prop where
  | line (f : Frame) {p q : Point} : p.Agrees q → Alike (.line f p) (.line f q)
  | smoothQuad (f : Frame) {p q : Point} : p.Agrees q → Alike (.smoothQuad f p) (.smoothQuad f q)
  | quad (f : Frame) {c d p q : Point} : c.Agrees d → p.Agrees q → Alike (.quad f c p) (.quad f d q)
  | smoothCubic (f : Frame) {c d p q : Point} : c.Agrees d → p.Agrees q →
    Alike (.smoothCubic f c p) (.smoothCubic f d q)
  | cubic (f : Frame) {b b' c d p q : Point} : b.Agrees b' → c.Agrees d → p.Agrees q →
    Alike (.cubic f b c p) (.cubic f b' d q)
  | arc (f : Frame) {r r' p q : Point} {v w : Scalar} (large sweep : Bool) : r.Agrees r' →
    zeroToOneBytes v = zeroToOneBytes w → p.Agrees q →
    Alike (.arc f r v large sweep p) (.arc f r' w large sweep q)
  | horizontal (f : Frame) {x y : Scalar} : x.Agrees y → Alike (.horizontal f x) (.horizontal f y)
  | vertical (f : Frame) {x y : Scalar} : x.Agrees y → Alike (.vertical f x) (.vertical f y)
  | closeMove (f : Frame) {p q : Point} : p.Agrees q → Alike (.closeMove f p) (.closeMove f q)
  | endPath : Alike .endPath .endPath

namespace Instruction.Alike

variable {i j : Instruction}

theorem opcode (h : i.Alike j) : i.opcode = j.opcode := by
  cases h <;> rfl

theorem capacity (h : i.Alike j) : i.capacity = j.capacity := by
  cases h <;> rfl

/-- The operands have the same bytes. -/
theorem operands (h : i.Alike j) : i.operandBytes = j.operandBytes := by
  cases h with
  | line _ hp | smoothQuad _ hp | closeMove _ hp => exact pointBytes_agrees hp
  | quad _ hc hp | smoothCubic _ hc hp =>
    exact congrArg₂ (· ++ ·) (pointBytes_agrees hc) (pointBytes_agrees hp)
  | cubic _ hb hc hp =>
    exact congrArg₂ (· ++ ·) (congrArg₂ (· ++ ·) (pointBytes_agrees hb) (pointBytes_agrees hc))
      (pointBytes_agrees hp)
  | arc _ large sweep hr hv hp =>
    simp only [operandBytes]
    rw [pointBytes_agrees hr, hv, pointBytes_agrees hp]
  | horizontal _ hx | vertical _ hx => exact coordinateBytes_agrees hx
  | endPath => rfl

end Instruction.Alike

/-- Runs take as many of one as of the other. -/
theorem Run.take_alike (opcode : UInt8) (room : ℕ) {is js : List Instruction}
    (h : List.Forall₂ Instruction.Alike is js) :
    List.Forall₂ Instruction.Alike (take opcode room is).1 (take opcode room js).1 ∧
      List.Forall₂ Instruction.Alike (take opcode room is).2 (take opcode room js).2 := by
  induction h generalizing room with
  | nil => cases room <;> exact ⟨.nil, .nil⟩
  | @cons i j is js hij hrest ih =>
    cases room with
    | zero => exact ⟨.nil, .cons hij hrest⟩
    | succ room =>
      unfold take
      rw [hij.opcode]
      split
      · exact ⟨.cons hij (ih room).1, (ih room).2⟩
      · exact ⟨.nil, .cons hij hrest⟩

theorem operandBytes_alike {is js : List Instruction} (h : List.Forall₂ Instruction.Alike is js) :
    is.flatMap Instruction.operandBytes = js.flatMap Instruction.operandBytes := by
  induction h with
  | nil => rfl
  | cons hij _ ih => rw [List.flatMap_cons, List.flatMap_cons, hij.operands, ih]

/-- **Instructions which are alike have the same bytes**, merged into the same
    runs. -/
theorem instructionBytes_alike {is js : List Instruction}
    (h : List.Forall₂ Instruction.Alike is js) : instructionBytes is = instructionBytes js := by
  -- the induction takes one run after the other off both sides
  induction hn : is.length using Nat.strong_induction_on generalizing is js with
  | _ n ih =>
    cases h with
    | nil => rfl
    | @cons i j is js hij hrest =>
      obtain ⟨htaken, hleft⟩ := Run.take_alike j.opcode (j.capacity - 1) hrest
      have hshorter : (Run.take j.opcode (j.capacity - 1) is).2.length < n := by
        have hsplit := congrArg List.length (Run.take_append j.opcode (j.capacity - 1) is)
        rw [List.length_append] at hsplit
        rw [List.length_cons] at hn
        omega
      have hbytes := ih _ hshorter hleft rfl
      unfold instructionBytes at hbytes ⊢
      rw [Run.ofInstructions, Run.ofInstructions, List.flatMap_cons, List.flatMap_cons, hij.opcode,
        hij.capacity, hbytes]
      congr 1
      -- the two runs have one opcode byte, and the same operands after it
      have hrun := operandBytes_alike (.cons hij htaken)
      unfold Run.bytes Run.opcode Run.instructions
      rw [hij.opcode, htaken.length_eq]
      exact congrArg _ hrun

/-! ## §3. Operands. -/

namespace Operand

/-- Operands whose forms agree, one by one. -/
structure Agrees (o o' : Operand) : Prop where
  absolute : o.absolute.Agrees o'.absolute
  relative : o.relative.Agrees o'.relative

theorem Agrees.inFrame {o o' : Operand} (h : o.Agrees o') (f : Frame) :
    (o.inFrame f).Agrees (o'.inFrame f) := by
  cases f with
  | absolute => exact h.absolute
  | relative => exact h.relative

variable {os os' : List Operand}

theorem size_agrees (f : Frame) (h : List.Forall₂ Agrees os os') : size f os = size f os' := by
  induction h with
  | nil => rfl
  | cons ho _ ih => exact congrArg₂ (· + ·) (pointSize_agrees (ho.inFrame f)) ih

/-- The shorter form of one is the shorter form of the other. -/
theorem shorter_agrees (h : List.Forall₂ Agrees os os') : shorter os = shorter os' := by
  unfold shorter
  rw [size_agrees .absolute h, size_agrees .relative h]

end Operand

/-! ## §4. Pens. -/

namespace Pen

/-- Pens which agree in place, start and family. -/
structure Agrees (p q : Pen) : Prop where
  position : p.position.Agrees q.position
  start : p.start.Agrees q.start
  family : p.family = q.family
  closed : p.closed = q.closed

/-- One command seen from one pen, the other from another pen: the same kind, and
    all they are drawn with agrees. -/
inductive Twins (t : Transform) (p q : Pen) : Command → Command → Prop where
  | moveTo {f g : Frame} {a b : Point} :
    (p.operand t f a).absolute.Agrees (q.operand t g b).absolute →
    Twins t p q (.moveTo f a) (.moveTo g b)
  | lineTo {f g : Frame} {a b : Point} : (p.operand t f a).Agrees (q.operand t g b) →
    Twins t p q (.lineTo f a) (.lineTo g b)
  | horizontalTo {f g : Frame} {x y : Scalar} :
    (axisForms f p.position.x (t.applyX x) (t.scale * x)).1.Agrees
      (axisForms g q.position.x (t.applyX y) (t.scale * y)).1 →
    (axisForms f p.position.x (t.applyX x) (t.scale * x)).2.Agrees
      (axisForms g q.position.x (t.applyX y) (t.scale * y)).2 →
    Twins t p q (.horizontalTo f x) (.horizontalTo g y)
  | verticalTo {f g : Frame} {x y : Scalar} :
    (axisForms f p.position.y (t.applyY x) (t.scale * x)).1.Agrees
      (axisForms g q.position.y (t.applyY y) (t.scale * y)).1 →
    (axisForms f p.position.y (t.applyY x) (t.scale * x)).2.Agrees
      (axisForms g q.position.y (t.applyY y) (t.scale * y)).2 →
    Twins t p q (.verticalTo f x) (.verticalTo g y)
  | cubicTo {f g : Frame} {a b a' b' a'' b'' : Point} : (p.operand t f a).Agrees (q.operand t g b) →
    (p.operand t f a').Agrees (q.operand t g b') → (p.operand t f a'').Agrees (q.operand t g b'') →
    Twins t p q (.cubicTo f a a' a'') (.cubicTo g b b' b'')
  | smoothCubicTo {f g : Frame} {a b a' b' : Point} : (p.operand t f a).Agrees (q.operand t g b) →
    (p.operand t f a').Agrees (q.operand t g b') →
    Twins t p q (.smoothCubicTo f a a') (.smoothCubicTo g b b')
  | quadTo {f g : Frame} {a b a' b' : Point} : (p.operand t f a).Agrees (q.operand t g b) →
    (p.operand t f a').Agrees (q.operand t g b') → Twins t p q (.quadTo f a a') (.quadTo g b b')
  | smoothQuadTo {f g : Frame} {a b : Point} : (p.operand t f a).Agrees (q.operand t g b) →
    Twins t p q (.smoothQuadTo f a) (.smoothQuadTo g b)
  | arcTo {f g : Frame} {r r' a b : Point} {v w : Scalar} {large sweep : Bool} : r.Agrees r' →
    v.Agrees w → (p.operand t f a).Agrees (q.operand t g b) →
    Twins t p q (.arcTo f ⟨r, v, large, sweep⟩ a) (.arcTo g ⟨r', w, large, sweep⟩ b)
  | close : Twins t p q .close .close

/-- What a command does from one pen and another command from another pen: the
    instructions are alike, and the pens agree afterwards. -/
def SameDrawing (a b : List Instruction × Pen) : Prop :=
  List.Forall₂ Instruction.Alike a.1 b.1 ∧ a.2.Agrees b.2

namespace Agrees

variable {p q : Pen} {t : Transform}

theorem starting {a b : Point} (h : a.Agrees b) : Agrees (.startingAt a) (.startingAt b) :=
  ⟨h, h, rfl, rfl⟩

/-- The pen itself as an operand. -/
theorem here (h : p.Agrees q) : p.here.Agrees q.here := ⟨h.position, .refl _⟩

theorem arrival (h : p.Agrees q) (f : Frame) {o o' : Operand} (ho : o.Agrees o') :
    (p.arrival f o).Agrees (q.arrival f o') := by
  cases f with
  | absolute => exact quantize_agrees ho.absolute
  | relative => exact h.position.add (quantize_agrees ho.relative)

theorem drawn (h : p.Agrees q) (f : Frame) {o o' : Operand} (ho : o.Agrees o')
    (family : Option CurveFamily) : (p.drawn f o family).Agrees (q.drawn f o' family) :=
  ⟨h.arrival f ho, h.start, rfl, h.closed⟩

/-- Closing and moving on to targets that agree. -/
theorem closeMove (h : p.Agrees q) {a b : Point} (hab : a.Agrees b) :
    (p.closeMove a).1.Alike (q.closeMove b).1 ∧ (p.closeMove a).2.Agrees (q.closeMove b).2 := by
  have htarget : Operand.Agrees ⟨a, a - p.start⟩ ⟨b, b - q.start⟩ := ⟨hab, hab.sub h.start⟩
  have hframe := Operand.shorter_agrees (.cons htarget .nil)
  have hback : Agrees { p with position := p.start } { q with position := q.start } :=
    ⟨h.start, h.start, h.family, h.closed⟩
  unfold Pen.closeMove
  simp only
  rw [hframe]
  exact ⟨.closeMove _ (htarget.inFrame _), starting (hback.arrival _ htarget)⟩

/-- A line along an axis: the same form, alike operands, and arrivals that
    agree. -/
theorem axisLine {x y : Scalar} (hxy : x.Agrees y) {forms forms' : Scalar × Scalar}
    (hto : forms.1.Agrees forms'.1) (hby : forms.2.Agrees forms'.2) :
    (Pen.axisLine x forms).1 = (Pen.axisLine y forms').1 ∧
      (Pen.axisLine x forms).2.1.Agrees (Pen.axisLine y forms').2.1 ∧
      (Pen.axisLine x forms).2.2.Agrees (Pen.axisLine y forms').2.2 := by
  unfold Pen.axisLine
  rw [coordinateSize_agrees hto, coordinateSize_agrees hby]
  split
  · exact ⟨rfl, hto, quantizeCoordinate_agrees hto⟩
  · exact ⟨rfl, hby, hxy.add (quantizeCoordinate_agrees hby)⟩

variable {o o' c c' b b' : Operand}

theorem cubic (h : p.Agrees q) (hb : b.Agrees b') (hc : c.Agrees c') (ho : o.Agrees o') :
    SameDrawing (draw.cubic p b c o) (draw.cubic q b' c' o') := by
  unfold draw.cubic
  rw [Operand.shorter_agrees (.cons hb (.cons hc (.cons ho .nil)))]
  exact ⟨.cons (.cubic _ (hb.inFrame _) (hc.inFrame _) (ho.inFrame _)) .nil, h.drawn _ ho _⟩

theorem quad (h : p.Agrees q) (hc : c.Agrees c') (ho : o.Agrees o') :
    SameDrawing (draw.quad p c o) (draw.quad q c' o') := by
  unfold draw.quad
  rw [Operand.shorter_agrees (.cons hc (.cons ho .nil))]
  exact ⟨.cons (.quad _ (hc.inFrame _) (ho.inFrame _)) .nil, h.drawn _ ho _⟩

/-- **Twins are drawn alike** by pens that agree, and leave pens that agree. -/
theorem draw_twins (h : p.Agrees q) {c d : Command} (hcd : Twins t p q c d) :
    SameDrawing (p.draw t c) (q.draw t d) := by
  cases hcd with
  | moveTo ho =>
    obtain ⟨halike, hagrees⟩ := h.closeMove ho
    exact ⟨.cons halike .nil, hagrees⟩
  | lineTo ho =>
    unfold draw
    simp only
    rw [Operand.shorter_agrees (.cons ho .nil)]
    exact ⟨.cons (.line _ (ho.inFrame _)) .nil, h.drawn _ ho _⟩
  | horizontalTo hto hby =>
    obtain ⟨hframe, hoperand, harrival⟩ := axisLine h.position.x hto hby
    unfold draw
    simp only
    rw [hframe]
    exact ⟨.cons (.horizontal _ hoperand) .nil, ⟨harrival, h.position.y⟩, h.start, rfl, h.closed⟩
  | verticalTo hto hby =>
    obtain ⟨hframe, hoperand, harrival⟩ := axisLine h.position.y hto hby
    unfold draw
    simp only
    rw [hframe]
    exact ⟨.cons (.vertical _ hoperand) .nil, ⟨h.position.x, harrival⟩, h.start, rfl, h.closed⟩
  | cubicTo hb hc ho => exact h.cubic hb hc ho
  | smoothCubicTo hc ho =>
    -- both pens know a cubic, or neither of them
    unfold draw
    simp only
    rw [h.family]
    split
    · rw [Operand.shorter_agrees (.cons hc (.cons ho .nil))]
      exact ⟨.cons (.smoothCubic _ (hc.inFrame _) (ho.inFrame _)) .nil, h.drawn _ ho _⟩
    · exact h.cubic h.here hc ho
  | quadTo hc ho => exact h.quad hc ho
  | smoothQuadTo ho =>
    unfold draw
    simp only
    rw [h.family]
    split
    · rw [Operand.shorter_agrees (.cons ho .nil)]
      exact ⟨.cons (.smoothQuad _ (ho.inFrame _)) .nil, h.drawn _ ho _⟩
    · exact h.quad h.here ho
  | arcTo hr hv ho =>
    unfold draw
    simp only
    rw [Operand.shorter_agrees (.cons ho .nil)]
    exact ⟨.cons (.arc _ _ _ (hr.applyVector t) (rotationBytes_agrees hv) (ho.inFrame _)) .nil,
      h.drawn _ ho _⟩
  | close => exact ⟨.nil, h.start, h.start, rfl, rfl⟩

end Agrees

end Pen

/-! ## §5. Lockstep. -/

theorem Pen.needsOpen_kind {c d : Command} (h : c.kind = d.kind) :
    Pen.needsOpen c = Pen.needsOpen d := by
  cases c <;> cases d <;> first | rfl | cases h

/-- Two paths under way.  What the pens draw next are twins, and then the paths
    are still under way. -/
structure Lockstep (t : Transform) (under : Pen → Pen → List Command → List Command → Prop) : Prop where
  agrees : ∀ {p q cs ds}, under p q cs ds → p.Agrees q
  restart : ∀ {p q c d cs ds}, under p q (c :: cs) (d :: ds) → c.kind = d.kind → p.closed = true →
    q.closed = true → Pen.needsOpen c = true →
    under (p.closeMove p.start).2 (q.closeMove q.start).2 (c :: cs) (d :: ds)
  draw : ∀ {p q c d cs ds}, under p q (c :: cs) (d :: ds) → c.kind = d.kind →
    (Pen.needsOpen c = true → p.closed = false ∧ q.closed = false) →
    Pen.Twins t p q c d ∧ under (p.draw t c).2 (q.draw t d).2 cs ds

namespace Lockstep

variable {t : Transform} {under : Pen → Pen → List Command → List Command → Prop}

/-- **One command of each path.** -/
theorem step (h : Lockstep t under) {p q : Pen} {c d : Command} {cs ds : List Command}
    (hunder : under p q (c :: cs) (d :: ds)) (hkind : c.kind = d.kind) :
    Pen.SameDrawing (p.step t c) (q.step t d) ∧ under (p.step t c).2 (q.step t d).2 cs ds := by
  have hagrees := h.agrees hunder
  have hneeds := Pen.needsOpen_kind hkind
  by_cases hc : Pen.needsOpen c = true
  · by_cases hclosed : p.closed = true
    · -- both pens begin a new sub-path where they are
      have hqclosed := hagrees.closed ▸ hclosed
      have hopened := h.restart hunder hkind hclosed hqclosed hc
      obtain ⟨htwins, hnext⟩ := h.draw hopened hkind fun _ => ⟨rfl, rfl⟩
      obtain ⟨hdrawn, hpens⟩ := (h.agrees hopened).draw_twins htwins
      unfold Pen.step
      rw [← hneeds, hc, hclosed, hqclosed]
      exact ⟨⟨.cons (hagrees.closeMove hagrees.start).1 hdrawn, hpens⟩, hnext⟩
    · have hopen : p.closed = false := Bool.eq_false_iff.2 hclosed
      have hqopen : q.closed = false := hagrees.closed ▸ hopen
      obtain ⟨htwins, hnext⟩ := h.draw hunder hkind fun _ => ⟨hopen, hqopen⟩
      rw [Stage.step_open t hopen, Stage.step_open t hqopen]
      exact ⟨hagrees.draw_twins htwins, hnext⟩
  · have hidle : Pen.needsOpen c = false := Bool.eq_false_iff.2 hc
    obtain ⟨htwins, hnext⟩ := h.draw hunder hkind fun hneed => absurd hneed hc
    rw [Stage.step_idle t p hidle, Stage.step_idle t q (hneeds ▸ hidle)]
    exact ⟨hagrees.draw_twins htwins, hnext⟩

/-- **Paths in lockstep are written alike** to their ends. -/
theorem drawAll (h : Lockstep t under) {cs ds : List Command}
    (hkinds : List.Forall₂ (fun c d => c.kind = d.kind) cs ds) {p q : Pen} (hunder : under p q cs ds) :
    List.Forall₂ Instruction.Alike (p.drawAll t cs) (q.drawAll t ds) := by
  induction hkinds generalizing p q with
  | nil => exact .nil
  | cons hkind _ ih =>
    obtain ⟨⟨hdrawn, -⟩, hnext⟩ := h.step hunder hkind
    exact List.rel_append hdrawn (ih hnext)

/-- **Paths in lockstep from their first moves on have the same bytes**, whatever
    they are painted with. -/
theorem outline (h : Lockstep t under) {f g : Frame} {a b : Point} {cs ds : List Command}
    (hkinds : List.Forall₂ (fun c d => c.kind = d.kind) cs ds)
    (hunder : under (.startingAt (quantize (t.apply a))) (.startingAt (quantize (t.apply b))) cs ds) :
    ∃ o o', Outline.ofCommands? t (.moveTo f a :: cs) = some o ∧
      Outline.ofCommands? t (.moveTo g b :: ds) = some o' ∧
      ∀ adjustment, o.bytes adjustment = o'.bytes adjustment := by
  refine ⟨_, _, rfl, rfl, fun adjustment => ?_⟩
  have hbody := List.rel_append (h.drawAll hkinds hunder) (.cons .endPath .nil)
  have hstart := pointBytes_agrees (h.agrees hunder).start
  exact congrArg (_ :: ·) (congrArg₂ (· ++ ·) hstart (instructionBytes_alike hbody))

end Lockstep

/-! ## §6. Equal commands. -/

/-- Commands which compare equal, one by one. -/
def EqualCommands : List Command → List Command → Prop := List.Forall₂ fun c d => (c == d) = true

instance EqualCommands.decidable (cs ds : List Command) : Decidable (EqualCommands cs ds) :=
  inferInstanceAs (Decidable (List.Forall₂ (fun c d => (c == d) = true) cs ds))

theorem kind_of_equal {c d : Command} (h : (c == d) = true) : c.kind = d.kind := by
  cases c <;> cases d <;> first | rfl | cases h

theorem EqualCommands.kinds {cs ds : List Command} (h : EqualCommands cs ds) :
    List.Forall₂ (fun c d => c.kind = d.kind) cs ds :=
  h.imp fun _ _ => kind_of_equal

namespace Pen

variable {p q : Pen} {t : Transform}

theorem Agrees.operand (h : p.Agrees q) (t : Transform) (f : Frame) {a b : Point} (hab : a.Agrees b) :
    (p.operand t f a).Agrees (q.operand t f b) := by
  cases f with
  | absolute => exact ⟨hab.apply t, (hab.apply t).sub h.position⟩
  | relative => exact ⟨h.position.add (hab.applyVector t), hab.applyVector t⟩

theorem axisForms_agrees (f : Frame) {x y target target' offset offset' : Scalar} (hxy : x.Agrees y)
    (htarget : target.Agrees target') (hoffset : offset.Agrees offset') :
    (axisForms f x target offset).1.Agrees (axisForms f y target' offset').1 ∧
      (axisForms f x target offset).2.Agrees (axisForms f y target' offset').2 := by
  cases f with
  | absolute => exact ⟨htarget, htarget.sub hxy⟩
  | relative => exact ⟨hxy.add hoffset, hoffset⟩

/-- **Equal commands are twins** to pens that agree. -/
theorem Agrees.twins (h : p.Agrees q) (t : Transform) {c d : Command} (hcd : (c == d) = true) :
    Twins t p q c d := by
  -- equality of commands is that of their kinds, frames and operands, in this order
  have operand {f g : Frame} {a b : Point} (hf : (f == g) = true) (hab : (a == b) = true) :
      (p.operand t f a).Agrees (q.operand t g b) := by
    rw [of_decide_eq_true hf]
    exact h.operand t g (.of_beq hab)
  cases c with
  | moveTo f a =>
    cases d with
    | moveTo g b =>
      obtain ⟨hf, ha⟩ := Bool.and_eq_true_iff.1 hcd
      exact .moveTo (operand hf ha).absolute
    | _ => cases hcd
  | lineTo f a =>
    cases d with
    | lineTo g b =>
      obtain ⟨hf, ha⟩ := Bool.and_eq_true_iff.1 hcd
      exact .lineTo (operand hf ha)
    | _ => cases hcd
  | horizontalTo f x =>
    cases d with
    | horizontalTo g y =>
      obtain ⟨hf, hxy⟩ := Bool.and_eq_true_iff.1 hcd
      obtain rfl := of_decide_eq_true hf
      obtain ⟨hto, hby⟩ := axisForms_agrees f h.position.x
        ((Scalar.Agrees.refl t.scale).mul (.sub (.inl hxy) (.refl t.center.x)))
        ((Scalar.Agrees.refl t.scale).mul (.inl hxy))
      exact .horizontalTo hto hby
    | _ => cases hcd
  | verticalTo f x =>
    cases d with
    | verticalTo g y =>
      obtain ⟨hf, hxy⟩ := Bool.and_eq_true_iff.1 hcd
      obtain rfl := of_decide_eq_true hf
      obtain ⟨hto, hby⟩ := axisForms_agrees f h.position.y
        ((Scalar.Agrees.refl t.scale).mul (.sub (.inl hxy) (.refl t.center.y)))
        ((Scalar.Agrees.refl t.scale).mul (.inl hxy))
      exact .verticalTo hto hby
    | _ => cases hcd
  | cubicTo f a a' a'' =>
    cases d with
    | cubicTo g b b' b'' =>
      obtain ⟨hf, hrest⟩ := Bool.and_eq_true_iff.1 hcd
      obtain ⟨ha, hrest⟩ := Bool.and_eq_true_iff.1 hrest
      obtain ⟨ha', ha''⟩ := Bool.and_eq_true_iff.1 hrest
      exact .cubicTo (operand hf ha) (operand hf ha') (operand hf ha'')
    | _ => cases hcd
  | smoothCubicTo f a a' =>
    cases d with
    | smoothCubicTo g b b' =>
      obtain ⟨hf, hrest⟩ := Bool.and_eq_true_iff.1 hcd
      obtain ⟨ha, ha'⟩ := Bool.and_eq_true_iff.1 hrest
      exact .smoothCubicTo (operand hf ha) (operand hf ha')
    | _ => cases hcd
  | quadTo f a a' =>
    cases d with
    | quadTo g b b' =>
      obtain ⟨hf, hrest⟩ := Bool.and_eq_true_iff.1 hcd
      obtain ⟨ha, ha'⟩ := Bool.and_eq_true_iff.1 hrest
      exact .quadTo (operand hf ha) (operand hf ha')
    | _ => cases hcd
  | smoothQuadTo f a =>
    cases d with
    | smoothQuadTo g b =>
      obtain ⟨hf, ha⟩ := Bool.and_eq_true_iff.1 hcd
      exact .smoothQuadTo (operand hf ha)
    | _ => cases hcd
  | arcTo f s a =>
    cases d with
    | arcTo g s' b =>
      obtain ⟨hf, hrest⟩ := Bool.and_eq_true_iff.1 hcd
      obtain ⟨hs, ha⟩ := Bool.and_eq_true_iff.1 hrest
      obtain ⟨r, v, large, sweep⟩ := s
      obtain ⟨r', w, large', sweep'⟩ := s'
      obtain ⟨hr, hs⟩ := Bool.and_eq_true_iff.1 hs
      obtain ⟨hv, hs⟩ := Bool.and_eq_true_iff.1 hs
      obtain ⟨hlarge, hsweep⟩ := Bool.and_eq_true_iff.1 hs
      obtain rfl := eq_of_beq hlarge
      obtain rfl := eq_of_beq hsweep
      exact .arcTo (.of_beq hr) (.inl hv) (operand hf ha)
    | _ => cases hcd
  | close =>
    cases d with
    | close => exact .close
    | _ => cases hcd

end Pen

/-- **Equal commands keep pens together.** -/
theorem equal_lockstep (t : Transform) :
    Lockstep t fun p q cs ds => p.Agrees q ∧ EqualCommands cs ds where
  agrees h := h.1
  restart := by
    rintro p q c d cs ds ⟨hagrees, hequal⟩ - - - -
    exact ⟨(hagrees.closeMove hagrees.start).2, hequal⟩
  draw := by
    rintro p q c d cs ds ⟨hagrees, hequal⟩ - -
    cases hequal with
    | cons hcd hrest =>
      have htwins := hagrees.twins t hcd
      exact ⟨htwins, (hagrees.draw_twins htwins).2, hrest⟩

/-- **Equal commands have one outline**, as far as its bytes go. -/
theorem EqualCommands.outlines {cs ds : List Command} (h : EqualCommands cs ds) (t : Transform) :
    Option.Rel (fun o o' => ∀ adjustment, o.bytes adjustment = o'.bytes adjustment)
      (Outline.ofCommands? t cs) (Outline.ofCommands? t ds) := by
  cases h with
  | nil => exact .none
  | @cons c d cs ds hcd hrest =>
    cases c with
    | moveTo f a =>
      cases d with
      | moveTo g b =>
        obtain ⟨-, ha⟩ := Bool.and_eq_true_iff.1 hcd
        have hstart := quantize_agrees ((Point.Agrees.of_beq ha).apply t)
        obtain ⟨o, o', ho, ho', hbytes⟩ := (equal_lockstep t).outline (f := f) (g := g)
          (EqualCommands.kinds hrest) ⟨.starting hstart, hrest⟩
        rw [ho, ho']
        exact .some hbytes
      | _ => cases hcd
    | lineTo | horizontalTo | verticalTo | cubicTo | smoothCubicTo | quadTo | smoothQuadTo | arcTo
    | close => cases d <;> first | exact .none | cases hcd

end Icon

end VectorIcon

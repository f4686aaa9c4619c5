/-
  VectorIcon.Proofs.Icon.Notation
  ────────────────────────────────
  **ON THE GRID THE NOTATION OF A PATH DOES NOT MATTER.**

  A pen sees every operand in both forms.  The form which was written is exact up
  to a scaling, the other one is computed from it and from the place of the pen.
  On the grid nothing is rounded, so both forms are what they should be: the
  image of the point, and its distance from the pen (`GridFit.forms`).  Two
  notations of one path therefore show their pens the same, command by command,
  and keep them together:

      GridFit.operands     — two notations of one point, seen from two pens
      Onward.twins         — two notations of one segment
      notation_lockstep    — two notations of one path
      Encoder.encode_notation
-/
import VectorIcon.Proofs.Icon.Lossless
import VectorIcon.Proofs.Icon.Outcome

namespace VectorIcon

theorem Point.Agrees.along {p q : Point} (h : p.Agrees q) (a : Axis) : (p.along a).Agrees (q.along a) := by
  cases a with
  | horizontal => exact h.x
  | vertical => exact h.y

/-- Segments of the same kind and with the same flags, whose numbers agree. -/
def Segment.Agrees : Segment → Segment → Prop := Segment.Matches Point.Agrees Scalar.Agrees

/-- Segments which compare equal agree. -/
theorem Segment.Agrees.of_beq {s s' : Segment} (h : (s == s') = true) : s.Agrees s' := by
  -- equality of segments is that of their kinds and points, in this order
  cases s with
  | move p =>
    cases s' with
    | move q => exact .move (.of_beq h)
    | _ => cases h
  | line p =>
    cases s' with
    | line q => exact .line (.of_beq h)
    | _ => cases h
  | quad c p =>
    cases s' with
    | quad d q =>
      obtain ⟨hc, hp⟩ := Bool.and_eq_true_iff.1 h
      exact .quad (.of_beq hc) (.of_beq hp)
    | _ => cases h
  | cubic b c p =>
    cases s' with
    | cubic b' d q =>
      obtain ⟨hb, hrest⟩ := Bool.and_eq_true_iff.1 h
      obtain ⟨hc, hp⟩ := Bool.and_eq_true_iff.1 hrest
      exact .cubic (.of_beq hb) (.of_beq hc) (.of_beq hp)
    | _ => cases h
  | arc shape p =>
    cases s' with
    | arc shape' q =>
      obtain ⟨hshape, hp⟩ := Bool.and_eq_true_iff.1 h
      obtain ⟨r, v, large, sweep⟩ := shape
      obtain ⟨r', w, large', sweep'⟩ := shape'
      obtain ⟨hr, hrest⟩ := Bool.and_eq_true_iff.1 hshape
      obtain ⟨hv, hflags⟩ := Bool.and_eq_true_iff.1 hrest
      obtain ⟨hlarge, hsweep⟩ := Bool.and_eq_true_iff.1 hflags
      obtain rfl := eq_of_beq hlarge
      obtain rfl := eq_of_beq hsweep
      exact .arc (.of_beq hr) (.inl hv) (.of_beq hp)
    | _ => cases h
  | close p =>
    cases s' with
    | close q => exact .close (.of_beq h)
    | _ => cases h

theorem Segment.agrees_all {ss ss' : List Segment} (h : (ss == ss') = true) :
    List.Forall₂ Segment.Agrees ss ss' := by
  induction ss generalizing ss' with
  | nil =>
    cases ss' with
    | nil => exact .nil
    | cons => cases h
  | cons s ss ih =>
    cases ss' with
    | nil => cases h
    | cons s' ss' =>
      obtain ⟨hs, hrest⟩ := Bool.and_eq_true_iff.1 h
      exact .cons (.of_beq hs) (ih hrest)

namespace Icon

/-! ## §1. One operand in two notations. -/

section

variable {t : Transform} {a : Axis} {n m : ℕ} {f g : Frame} {pen pen' v w x y : Scalar}

/-- **Both forms of an operand are exact**: the image of the coordinate, and its
    distance from the pen. -/
theorem GridFit.forms (ht : GridFit t) (hn : lossless.Near t a n pen v) (hx : lossless.number x.value)
    (hinside : (t.image a (Cursor.coordinate f v x)).Holds lossless.inside) :
    (Pen.axisForms f pen (t.image a x) (t.scale * x)).1.isFinite = true ∧
      (Pen.axisForms f pen (t.image a x) (t.scale * x)).1.value =
        (t.image a (Cursor.coordinate f v x)).value ∧
      (Pen.axisForms f pen (t.image a x) (t.scale * x)).2.isFinite = true ∧
      (Pen.axisForms f pen (t.image a x) (t.scale * x)).2.value =
        (t.image a (Cursor.coordinate f v x)).value - pen.value := by
  obtain ⟨hpen, hat, hlow, hhigh⟩ := hn.placed
  obtain ⟨hlattice, hsmall⟩ := hx
  cases f with
  | absolute =>
    -- the image is exact, and so is the difference of two places in the icon
    obtain ⟨-, himage⟩ := ht.image_exact hlattice (hsmall.trans (by norm_num)) hinside.1
    obtain ⟨hfinite, hvalue⟩ := Scalar.sub_lattice hinside.1 hpen himage hat
      (by rw [abs_lt]; constructor <;> linarith [hinside.2.1, hinside.2.2])
    exact ⟨hinside.1, rfl, hfinite, hvalue⟩
  | relative =>
    have hdeviation : |t.deviation a pen v| ≤ 0 := hn.deviation.trans (le_of_eq (by
      show (0 + n * 0 : ℚ) = 0
      ring))
    obtain ⟨hsource, hsum, htarget, hvalue, -⟩ := ht.target ⟨hlattice, hsmall⟩ hinside hn.placed hn.source
      hdeviation
    obtain ⟨-, k, hk⟩ := ht.scale
    have hoffset := (Scalar.isFinite_of_add htarget.1).2
    refine ⟨htarget.1, hvalue, hoffset, ?_⟩
    -- the scaled offset is what is between the images of both ends
    have hfrom : pen.value = t.exact a v := sub_eq_zero.1 (abs_nonpos_iff.1 hdeviation)
    obtain ⟨hto, -⟩ := ht.image_exact hsource.2.1 (hsource.2.2.trans (by norm_num)) hinside.1
    show (t.scale * x).value = (t.image a (v + x)).value - pen.value
    rw [Scalar.mul_lattice hk hoffset hlattice (hsmall.trans (by norm_num)), ← hk, hto, hfrom]
    unfold Transform.exact
    rw [hsum]
    ring

/-- **Two notations of one coordinate** have the same forms. -/
theorem GridFit.forms_agree (ht : GridFit t) (hn : lossless.Near t a n pen v)
    (hm : lossless.Near t a m pen' w) (hpens : pen.Agrees pen') (hx : lossless.number x.value)
    (hy : lossless.number y.value)
    (hinside : (t.image a (Cursor.coordinate f v x)).Holds lossless.inside)
    (hsame : (Cursor.coordinate f v x).Agrees (Cursor.coordinate g w y)) :
    (Pen.axisForms f pen (t.image a x) (t.scale * x)).1.Agrees
        (Pen.axisForms g pen' (t.image a y) (t.scale * y)).1 ∧
      (Pen.axisForms f pen (t.image a x) (t.scale * x)).2.Agrees
        (Pen.axisForms g pen' (t.image a y) (t.scale * y)).2 := by
  have himage : (t.image a (Cursor.coordinate f v x)).Agrees (t.image a (Cursor.coordinate g w y)) :=
    (Scalar.Agrees.refl _).mul (hsame.sub (.refl _))
  have hinside' : (t.image a (Cursor.coordinate g w y)).Holds lossless.inside :=
    ⟨himage.isFinite ▸ hinside.1, himage.value ▸ hinside.2⟩
  obtain ⟨hto, htovalue, hby, hbyvalue⟩ := ht.forms hn hx hinside
  obtain ⟨hto', htovalue', hby', hbyvalue'⟩ := ht.forms hm hy hinside'
  refine ⟨Scalar.agrees_of_value hto hto' ?_, Scalar.agrees_of_value hby hby' ?_⟩
  · rw [htovalue, htovalue', himage.value]
  · rw [hbyvalue, hbyvalue', himage.value, hpens.value]

end

/-- **Two notations of one point** have the same forms, seen from pens that
    agree. -/
theorem GridFit.operands {t : Transform} (ht : GridFit t) {d e : Axis → Drift} {s s' : Stage}
    (h : Follows lossless t d s) (h' : Follows lossless t e s')
    (hpens : s.pen.position.Agrees s'.pen.position) {f g : Frame} {p q : Point}
    (hp : p.All fun v => lossless.number v.value) (hq : q.All fun v => lossless.number v.value)
    (hinside : (t.apply (s.cursor.point f p)).All (Scalar.Holds lossless.inside))
    (hsame : (s.cursor.point f p).Agrees (s'.cursor.point g q)) :
    (s.pen.operand t f p).Agrees (s'.pen.operand t g q) := by
  -- the forms of a point are those of its coordinates
  have hforms (a : Axis) : ((s.pen.operand t f p).absolute.along a).Agrees
        ((s'.pen.operand t g q).absolute.along a) ∧
      ((s.pen.operand t f p).relative.along a).Agrees ((s'.pen.operand t g q).relative.along a) := by
    have hin := Follows.inside_along hinside a
    have hsame := hsame.along a
    rw [Cursor.point_along] at hin hsame
    rw [Cursor.point_along] at hsame
    have hagree := ht.forms_agree (h.position a) (h'.position a) (hpens.along a) (hp.along a) (hq.along a)
      hin hsame
    rw [← Pen.operand_along, ← Pen.operand_along] at hagree
    exact hagree
  exact ⟨⟨(hforms .horizontal).1, (hforms .vertical).1⟩, (hforms .horizontal).2, (hforms .vertical).2⟩

/-! ## §2. One segment in two notations. -/

/-- The commands which are left are drawn on the grid. -/
def Onward (t : Transform) (cs : List Command) (s : Stage) : Prop :=
  (∃ d, Follows lossless t d s ∧ (∀ c ∈ cs, lossless.Admits c) ∧
      ∀ a, (d a).Within (lossless.limit a) a cs) ∧
    ∀ g ∈ s.expected t cs, lossless.Inside g

namespace Onward

variable {t : Transform} {c : Command} {cs : List Command} {s : Stage}

theorem restart (h : Onward t (c :: cs) s) (ht : GridFit t) (hclosed : s.pen.closed = true)
    (hc : Pen.needsOpen c = true) : Onward t (c :: cs) (s.restart quantizeCoordinate) := by
  obtain ⟨hfollows, hinside⟩ := h
  rw [Stage.expected_closed t quantizeCoordinate hclosed hc] at hinside
  have hmove := hinside _ (List.mem_cons_of_mem _ List.mem_cons_self)
  exact ⟨((Follows.simulates (lossless_bounds ht)).restart hfollows hclosed hc hmove).2,
    fun g hg => hinside g (List.mem_cons_of_mem _ (List.mem_cons_of_mem _ hg))⟩

/-- After a command which is not put off; its segment is inside the icon. -/
theorem draw (h : Onward t (c :: cs) s) (ht : GridFit t)
    (hopen : Pen.needsOpen c = true → s.pen.closed = false) :
    Onward t cs (s.draw t quantizeCoordinate c) ∧
      (c ≠ .close → lossless.Inside (mapSegment t (s.cursor.resolve c))) := by
  obtain ⟨hfollows, hinside⟩ := h
  have hsimulates := Follows.simulates (lossless_bounds ht)
  by_cases hc : Pen.needsOpen c = true
  · rw [Stage.expected_open t quantizeCoordinate (hopen hc) hc] at hinside
    have hsegment := hinside _ List.mem_cons_self
    exact ⟨⟨(hsimulates.draw hfollows (hopen hc) hc hsegment).2,
      fun g hg => hinside g (List.mem_cons_of_mem _ hg)⟩, fun _ => hsegment⟩
  · cases c with
    | close =>
      rw [Stage.expected_close t quantizeCoordinate] at hinside
      exact ⟨⟨hsimulates.close hfollows, hinside⟩, fun hne => absurd rfl hne⟩
    | moveTo f target =>
      rw [Stage.expected_move t quantizeCoordinate] at hinside
      have hsegment := hinside _ (List.mem_cons_of_mem _ List.mem_cons_self)
      exact ⟨⟨(hsimulates.move hfollows hsegment).2,
        fun g hg => hinside g (List.mem_cons_of_mem _ (List.mem_cons_of_mem _ hg))⟩, fun _ => hsegment⟩
    | lineTo | horizontalTo | verticalTo | cubicTo | smoothCubicTo | quadTo | smoothQuadTo | arcTo =>
      exact absurd rfl hc

/-- **Two notations of one segment are twins**, seen from pens that agree. -/
theorem twins {d : Command} {ds : List Command} {s' : Stage} (h : Onward t (c :: cs) s)
    (h' : Onward t (d :: ds) s') (ht : GridFit t) (hpens : s.pen.Agrees s'.pen)
    (hkind : c.kind = d.kind) (hsame : (s.cursor.resolve c).Agrees (s'.cursor.resolve d))
    (hinside : c ≠ .close → lossless.Inside (mapSegment t (s.cursor.resolve c))) :
    Pen.Twins t s.pen s'.pen c d := by
  obtain ⟨⟨_, hfollows, hadmits, -⟩, -⟩ := h
  obtain ⟨⟨_, hfollows', hadmits', -⟩, -⟩ := h'
  have hc := hadmits c List.mem_cons_self
  have hd := hadmits' d List.mem_cons_self
  have operand {f g : Frame} {p q : Point} := ht.operands (f := f) (g := g) (p := p) (q := q) hfollows
    hfollows' hpens.position
  cases c with
  | moveTo f p =>
    cases d with
    | moveTo g q =>
      cases hsame with
      | move hp => exact .moveTo (operand hc hd (hinside Command.noConfusion) hp).absolute
    | _ => cases hkind
  | lineTo f p =>
    cases d with
    | lineTo g q =>
      cases hsame with
      | line hp => exact .lineTo (operand hc hd (hinside Command.noConfusion) hp)
    | _ => cases hkind
  | horizontalTo f x =>
    cases d with
    | horizontalTo g y =>
      cases hsame with
      | line hp =>
        -- only the coordinate along the axis is an operand
        obtain ⟨hto, hby⟩ := ht.forms_agree (hfollows.position .horizontal) (hfollows'.position .horizontal)
          hpens.position.x hc hd (hinside Command.noConfusion).1 hp.x
        exact .horizontalTo hto hby
    | _ => cases hkind
  | verticalTo f x =>
    cases d with
    | verticalTo g y =>
      cases hsame with
      | line hp =>
        obtain ⟨hto, hby⟩ := ht.forms_agree (hfollows.position .vertical) (hfollows'.position .vertical)
          hpens.position.y hc hd (hinside Command.noConfusion).2 hp.y
        exact .verticalTo hto hby
    | _ => cases hkind
  | cubicTo f p p' p'' =>
    cases d with
    | cubicTo g q q' q'' =>
      have hin := hinside Command.noConfusion
      cases hsame with
      | cubic hp hp' hp'' =>
        exact .cubicTo (operand hc.1 hd.1 hin.1 hp) (operand hc.2.1 hd.2.1 hin.2.1 hp')
          (operand hc.2.2 hd.2.2 hin.2.2 hp'')
    | _ => cases hkind
  | smoothCubicTo f p p' =>
    cases d with
    | smoothCubicTo g q q' =>
      have hin := hinside Command.noConfusion
      cases hsame with
      | cubic _ hp hp' =>
        exact .smoothCubicTo (operand hc.1 hd.1 hin.2.1 hp) (operand hc.2 hd.2 hin.2.2 hp')
    | _ => cases hkind
  | quadTo f p p' =>
    cases d with
    | quadTo g q q' =>
      have hin := hinside Command.noConfusion
      cases hsame with
      | quad hp hp' => exact .quadTo (operand hc.1 hd.1 hin.1 hp) (operand hc.2 hd.2 hin.2 hp')
    | _ => cases hkind
  | smoothQuadTo f p =>
    cases d with
    | smoothQuadTo g q =>
      cases hsame with
      | quad _ hp => exact .smoothQuadTo (operand hc hd (hinside Command.noConfusion).2 hp)
    | _ => cases hkind
  | arcTo f shape p =>
    cases d with
    | arcTo g shape' q =>
      obtain ⟨r, v, large, sweep⟩ := shape
      obtain ⟨r', w, large', sweep'⟩ := shape'
      cases hsame with
      | arc hr hv hp =>
        exact .arcTo hr hv (operand hc.2.2 hd.2.2 (hinside Command.noConfusion).2 hp)
    | _ => cases hkind
  | close =>
    cases d with
    | close => exact .close
    | _ => cases hkind

end Onward

/-! ## §3. One path in two notations. -/

/-- **Two notations of one path are drawn in lockstep.** -/
theorem notation_lockstep {t : Transform} (ht : GridFit t) :
    Lockstep t fun p q cs ds => p.Agrees q ∧ ∃ s s' : Stage, s.pen = p ∧ s'.pen = q ∧
      Onward t cs s ∧ Onward t ds s' ∧
      List.Forall₂ Segment.Agrees (s.cursor.resolveAll cs) (s'.cursor.resolveAll ds) where
  agrees h := h.1
  restart := by
    rintro p q c d cs ds ⟨hpens, s, s', rfl, rfl, h, h', hsame⟩ hkind hclosed hclosed' hc
    exact ⟨(hpens.closeMove hpens.start).2, s.restart quantizeCoordinate, s'.restart quantizeCoordinate, rfl, rfl,
      h.restart ht hclosed hc, h'.restart ht hclosed' (Pen.needsOpen_kind hkind ▸ hc), hsame⟩
  draw := by
    rintro p q c d cs ds ⟨hpens, s, s', rfl, rfl, h, h', hsame⟩ hkind hopen
    obtain ⟨hnext, hinside⟩ := h.draw ht fun hc => (hopen hc).1
    obtain ⟨hnext', -⟩ := h'.draw ht fun hd => (hopen (Pen.needsOpen_kind hkind ▸ hd)).2
    cases hsame with
    | cons hfirst hrest =>
      have htwins := h.twins h' ht hpens hkind hfirst hinside
      exact ⟨htwins, (hpens.draw_twins htwins).2, s.draw t quantizeCoordinate c,
        s'.draw t quantizeCoordinate d, rfl, rfl, hnext, hnext', hrest⟩

/-- The operand of a first move is where it leads, since the cursor is at the
    origin. -/
theorem operand_origin {T : Tolerance} {t : Transform} {f : Frame} {p : Point}
    (h : T.Inside (mapSegment t (Cursor.initial.resolve (.moveTo f p)))) :
    p.Agrees (Cursor.initial.point f p) := by
  have hcoordinate (a : Axis) : (p.along a).Agrees ((Cursor.initial.point f p).along a) := by
    have hinside := Follows.inside_along h a
    have horigin : Cursor.initial.position.along a = 0.0 := by cases a <;> rfl
    rw [Cursor.point_along, horigin] at hinside ⊢
    exact (coordinate_origin (Scalar.isFinite_of_sub (Scalar.isFinite_of_mul hinside.1).2).1).2
  exact ⟨hcoordinate .horizontal, hcoordinate .vertical⟩

/-- A path on the grid leads into the icon and goes on there. -/
theorem GridPath.onward {t : Transform} (ht : GridFit t) {f : Frame} {p : Point} {cs : List Command}
    (h : GridPath t (.moveTo f p :: cs)) :
    p.Agrees (Cursor.initial.point f p) ∧ Onward t cs (.initial t quantizeCoordinate f p) := by
  have hreference : Icon.reference t (.moveTo f p :: cs) =
      mapSegment t (Cursor.initial.resolve (.moveTo f p)) ::
        (Stage.initial t quantizeCoordinate f p).expected t cs := rfl
  have hinside := h.inside
  rw [hreference] at hinside
  obtain ⟨hfirst, hrest⟩ := List.forall_mem_cons.1 hinside
  obtain ⟨hmove, hadmits⟩ := List.forall_mem_cons.1 h.admits
  exact ⟨operand_origin hfirst, ⟨_, .initial (lossless_bounds ht) hmove hfirst, hadmits,
    fun _ _ _ => trivial⟩, hrest⟩

/-- **Two notations of one path on the grid**: commands of the same kinds which
    resolve to the same segments. -/
structure Notations (t : Transform) (cs ds : List Command) : Prop where
  kinds : List.Forall₂ (fun c d => c.kind = d.kind) cs ds
  segments : (Path.resolve cs == Path.resolve ds) = true
  left : GridPath t cs
  right : GridPath t ds

instance Notations.decidable (t : Transform) (cs ds : List Command) : Decidable (Notations t cs ds) :=
  decidable_of_iff (List.Forall₂ (fun c d => c.kind = d.kind) cs ds ∧
      (Path.resolve cs == Path.resolve ds) = true ∧ GridPath t cs ∧ GridPath t ds)
    ⟨fun h => ⟨h.1, h.2.1, h.2.2.1, h.2.2.2⟩, fun h => ⟨h.kinds, h.segments, h.left, h.right⟩⟩

/-- **The outlines of two notations have the same bytes.** -/
theorem Notations.outlines {t : Transform} (ht : GridFit t) {cs ds : List Command} (h : Notations t cs ds) :
    Option.Rel (fun o o' => ∀ adjustment, o.bytes adjustment = o'.bytes adjustment)
      (Outline.ofCommands? t cs) (Outline.ofCommands? t ds) := by
  obtain ⟨hkinds, hsegments, hleft, hright⟩ := h
  cases hkinds with
  | nil => exact .none
  | @cons c d cs ds hkind hkinds =>
    cases c with
    | moveTo f p =>
      cases d with
      | moveTo g q =>
        obtain ⟨hp, honward⟩ := hleft.onward ht
        obtain ⟨hq, honward'⟩ := hright.onward ht
        -- both pens start where the first segment leads
        cases Segment.agrees_all hsegments with
        | cons hfirst hrest =>
          cases hfirst with
          | move htarget =>
            have hpens : Pen.Agrees (.startingAt (quantize (t.apply p))) (.startingAt (quantize (t.apply q))) :=
              .starting (quantize_agrees (((hp.trans htarget).trans hq.symm).apply t))
            obtain ⟨o, o', ho, ho', hbytes⟩ := (notation_lockstep ht).outline (f := f) (g := g) hkinds
              ⟨hpens, _, _, rfl, rfl, honward, honward', hrest⟩
            rw [ho, ho']
            exact .some hbytes
      | _ => cases hkind
    | _ =>
      -- no outline begins with another command
      cases d with
      | moveTo => cases hkind
      | _ => exact .none

/-! ## §4. Drawings. -/

/-- Paths of one opacity whose commands are equal, or two notations of one path
    on the grid. -/
def Renotated (t : Transform) (p q : PathElement) : Prop :=
  opacityWeight p.paint.alpha = opacityWeight q.paint.alpha ∧
    ∃ cs ds, Path.parse p.data = .ok cs ∧ Path.parse q.data = .ok ds ∧
      (EqualCommands cs ds ∨ Notations t cs ds)

/-- Whether paths are the same but for notation can be computed. -/
theorem renotated_iff {t : Transform} {p q : PathElement} :
    Renotated t p q ↔ opacityWeight p.paint.alpha = opacityWeight q.paint.alpha ∧
      ∃ cs ∈ (Path.parse p.data).toOption, ∃ ds ∈ (Path.parse q.data).toOption,
        EqualCommands cs ds ∨ Notations t cs ds := by
  unfold Renotated
  cases Path.parse p.data <;> cases Path.parse q.data <;> simp [Except.toOption]

instance Renotated.decidable (t : Transform) (p q : PathElement) : Decidable (Renotated t p q) :=
  decidable_of_iff _ renotated_iff.symm

/-- The sketches of drawings which differ in notation only. -/
theorem Renotated.sketches {t : Transform} (ht : GridFit t) {ps qs : List PathElement}
    (h : List.Forall₂ (Renotated t) ps qs) :
    ∃ ss ss', Sketched ps ss ∧ Sketched qs ss' ∧ List.Forall₂ (Sketch.Alike t) ss ss' := by
  induction h with
  | nil => exact ⟨[], [], .nil, .nil, .nil⟩
  | cons hpq _ ih =>
    obtain ⟨ss, ss', hss, hss', halike⟩ := ih
    obtain ⟨hweight, cs, ds, hp, hq, hnotations⟩ := hpq
    have houtlines : Option.Rel (fun o o' => ∀ adjustment, o.bytes adjustment = o'.bytes adjustment)
        (Outline.ofCommands? t cs) (Outline.ofCommands? t ds) := by
      rcases hnotations with hequal | hnotations
      · exact hequal.outlines t
      · exact hnotations.outlines ht
    have hkinds : List.Forall₂ (fun c d => c.kind = d.kind) cs ds := by
      rcases hnotations with hequal | hnotations
      · exact hequal.kinds
      · exact hnotations.kinds
    -- both paths have commands, or neither of them
    cases hkinds with
    | nil => exact ⟨ss, ss', .empty hp hss, .empty hq hss', halike⟩
    | cons => exact ⟨_, _, .commands hp hss, .commands hq hss', .cons ⟨hweight, houtlines⟩ halike⟩

/-- **On the grid the notation does not matter.**  If the scale is a power of two
    and the center is on the grid, drawings of one view box whose paths are on
    the grid and resolve to the same segments by commands of the same kinds have
    the same icon, however the commands are written; they have one if there is a
    command at all.  Paths with equal commands need not be on the grid. -/
theorem Encoder.encode_notation (e : Encoder) (d d' : Drawing)
    (hbox : d'.canvas.viewBox = d.canvas.viewBox)
    (ht : GridFit (Transform.fit d.canvas.viewBox e.outputSize))
    (h : List.Forall₂ (Renotated (Transform.fit d.canvas.viewBox e.outputSize)) d.paths d'.paths) :
    e.encode d' = e.encode d ∧
      ((∃ bytes, e.encode d = .ok bytes) ↔ ∃ p ∈ d.paths, ∃ c cs, Path.parse p.data = .ok (c :: cs)) := by
  obtain ⟨ss, ss', hss, hss', halike⟩ := Renotated.sketches ht h
  refine ⟨e.encode_alike hbox (sketched_iff.1 hss) (sketched_iff.1 hss') halike, ?_⟩
  rw [e.encode_ok_iff d]
  exact and_iff_right (sketches_ok_iff.1 ⟨ss, sketched_iff.1 hss⟩)

/-- Every command with absolute operands, and a path off the grid. -/
def absoluteDrawing : Drawing where
  canvas := ⟨24.0, 24.0, ⟨0.0, 0.0, 24.0, 24.0⟩⟩
  paths :=
    [⟨"M4 4L8 4.25H3V2.5C4 8 5 9 6 6S7 7 8 8Q9 9 10 8T12 9A3 4 5 1 0 14 13ZL5 6M1 1 2 3", .default⟩,
     ⟨"M.1 .3l.7 .1", .default⟩]

/-- The same path with relative operands but for one, and the other one in other
    words. -/
def relativeDrawing : Drawing where
  canvas := ⟨64.0, 64.0, ⟨0.0, 0.0, 24.0, 24.0⟩⟩
  paths :=
    [⟨"m4,4 4,0.25h-5v-175e-2c1 5.5 2 6.5 3 3.5s1 1 2 2q1 1 2 0T12 9a3 4 5 1 0 2 4zl1 2m-4-5l1 2", .default⟩,
     ⟨"M0.1,0.3l0.7,0.1", .default⟩]

theorem Encoder.encode_notation_relativeDrawing :
    GridFit (Transform.fit absoluteDrawing.canvas.viewBox 48.0) ∧
      ∃ bytes, Encoder.encode ⟨48.0, .black⟩ absoluteDrawing = .ok bytes ∧
        Encoder.encode ⟨48.0, .black⟩ relativeDrawing = .ok bytes := by
  have hfit : GridFit (Transform.fit absoluteDrawing.canvas.viewBox 48.0) := gridDrawing_fit
  have hrenotated : List.Forall₂ (Renotated (Transform.fit absoluteDrawing.canvas.viewBox 48.0))
      absoluteDrawing.paths relativeDrawing.paths := by
    decide +kernel
  obtain ⟨hsame, -⟩ := encode_notation ⟨48.0, .black⟩ absoluteDrawing relativeDrawing rfl hfit hrenotated
  obtain ⟨bytes, hbytes⟩ : ∃ bytes, Encoder.encode ⟨48.0, .black⟩ absoluteDrawing = .ok bytes :=
    exists_encode (by decide +kernel)
  exact ⟨hfit, bytes, hbytes, hsame.trans hbytes⟩

end Icon

end VectorIcon

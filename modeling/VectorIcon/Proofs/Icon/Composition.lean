/-
  VectorIcon.Proofs.Icon.Composition
  ────────────────────────────────
  **AN ICON IS COMPOSED OF WHAT ITS PATHS CONTRIBUTE, ONE BY ONE.**

  What a path contributes is the setting of its register, if one is needed, and a
  group which depends on the rest of the drawing in the adjustment of its first
  byte only.  Without that adjustment it is the body of the icon which the path
  would have alone, if it were opaque (`Encoder.Contributes`).  Opaque paths set
  no register, so the body of such a drawing is followed by whatever comes next:

      Registers.portions_give  — the registers add a setting and an adjustment
      Registers.groups_fullWeight  — opaque paths leave the registers as they are
      Encoder.encode_fullWeight    — an opaque path alone
      Encoder.encode_composes
-/
import VectorIcon.Proofs.Icon.InPlace
import VectorIcon.Proofs.Icon.Outcome

namespace VectorIcon

namespace Icon

/-! ## §1. Portions. -/

/-- What a path contributes to an icon. -/
structure Portion where
  /-- The setting of a register, if the path needs one. -/
  setting : List UInt8
  /-- The adjustment in the first byte of the group. -/
  adjustment : UInt8
  /-- The rest of the group. -/
  rest : List UInt8

/-- The bytes of a portion. -/
def Portion.bytes (q : Portion) : List UInt8 := q.setting ++ (0xc0 ||| q.adjustment) :: q.rest

/-- An outline without the first byte of its group. -/
def Outline.rest (o : Outline) : List UInt8 := pointBytes o.start ++ instructionBytes o.body

namespace Registers

/-- The portion of every painting. -/
def portions (r : Registers) : List Painting → List Portion
  | [] => []
  | p :: ps => ⟨(r.select p.weight).2.1, (r.select p.weight).1, p.outline.rest⟩ ::
      portions (r.select p.weight).2.2 ps

/-- The groups are the bytes of the portions. -/
theorem groups_portions (r : Registers) (ps : List Painting) :
    r.groups ps = (r.portions ps).map Portion.bytes := by
  induction ps generalizing r with
  | nil => rfl
  | cons p ps ih =>
    show _ :: groups _ ps = _ :: (portions _ ps).map Portion.bytes
    rw [ih]
    rfl

/-- A reader finds the adjustments of the portions. -/
theorem portions_adjustments (r : Registers) (ps : List Painting) :
    (Content.pathsOf (r.items ps)).map (·.adjustment) = (r.portions ps).map (·.adjustment) := by
  induction ps generalizing r with
  | nil => rfl
  | cons p ps ih =>
    have hset : Content.pathsOf (r.settingItems p.weight) = [] := by
      unfold settingItems
      split <;> rfl
    unfold Content.pathsOf at ih hset ⊢
    rw [items, List.filterMap_append, hset]
    exact congrArg (_ :: ·) (ih _)

/-- **The portion of a painting**: an adjustment, a setting of this adjustment or
    none, and the outline. -/
def Gives (p : Painting) (q : Portion) : Prop :=
  IsAdjustment q.adjustment ∧
    (q.setting = [] ∨ q.setting = setBytes q.adjustment p.weight) ∧ q.rest = p.outline.rest

theorem portions_give {r : Registers} (hr : r.Bounded) (ps : List Painting) :
    List.Forall₂ Gives ps (r.portions ps) := by
  induction ps generalizing r with
  | nil => exact .nil
  | cons p ps ih =>
    obtain ⟨hadjustment, hsetting, hnext⟩ := select_spec hr p.weight
    exact .cons ⟨hadjustment, hsetting, rfl⟩ (ih hnext)

/-- **Opaque paintings leave the registers as they are.** -/
theorem groups_fullWeight {ps : List Painting} (h : ∀ p ∈ ps, p.weight = 255) (r : Registers)
    (qs : List Painting) : r.groups (ps ++ qs) = r.groups ps ++ r.groups qs := by
  induction ps with
  | nil => rfl
  | cons p ps ih =>
    have hselect : r.select p.weight = (0, [], r) := if_pos (h p List.mem_cons_self)
    rw [List.cons_append, groups, groups, hselect]
    exact congrArg (_ :: ·) (ih fun q hq => h q (List.mem_cons_of_mem p hq))

end Registers

/-! ## §2. Paths. -/

/-- Whether a path has commands. -/
def hasCommands (p : PathElement) : Bool := (Path.parse p.data).toOption.any (!·.isEmpty)

namespace Sketched

variable {t : Transform} {ps qs : List PathElement} {ss ss' : List Sketch}

/-- The sketches of paths in a row. -/
theorem append (h : Sketched ps ss) (h' : Sketched qs ss') : Sketched (ps ++ qs) (ss ++ ss') := by
  induction h with
  | nil => exact h'
  | empty hparse _ ih => exact .empty hparse ih
  | commands hparse _ ih => exact .commands hparse ih

/-- The sketches paint what the paths paint. -/
theorem paintings (h : Sketched ps ss) :
    ps.filterMap (painting? t) = ss.filterMap (Sketch.painting? t) := by
  induction h with
  | nil => rfl
  | empty hparse _ ih => rw [List.filterMap_cons_none (Encoder.painting?_empty hparse), ih]
  | @commands p ps ss c cs hparse _ ih =>
    obtain ⟨o, ho⟩ := exists_outline t hparse
    rw [List.filterMap_cons_some (Encoder.painting?_outline hparse ho),
      List.filterMap_cons_some (Sketch.painting?_outline ho _), ih]

/-- The weights of the sketches are those of paths. -/
theorem weights (h : Sketched ps ss) :
    ∀ s ∈ ss, ∃ p ∈ ps, s.weight = opacityWeight p.paint.alpha := by
  induction h with
  | nil =>
    intro s hs
    cases hs
  | empty _ _ ih =>
    intro s hs
    obtain ⟨p, hp, hweight⟩ := ih s hs
    exact ⟨p, List.mem_cons_of_mem _ hp, hweight⟩
  | commands _ _ ih =>
    refine List.forall_mem_cons.2 ⟨⟨_, List.mem_cons_self, rfl⟩, fun s hs => ?_⟩
    obtain ⟨p, hp, hweight⟩ := ih s hs
    exact ⟨p, List.mem_cons_of_mem _ hp, hweight⟩

/-- Every path which has commands is painted with its weight. -/
theorem paints (h : Sketched ps ss) :
    List.Forall₂
      (fun p painting => ∃ c cs o, Path.parse p.data = .ok (c :: cs) ∧
        Outline.ofCommands? t (c :: cs) = some o ∧
        painting = ⟨opacityWeight p.paint.alpha, o⟩)
      (ps.filter hasCommands) (ss.filterMap (Sketch.painting? t)) := by
  induction h with
  | nil => exact .nil
  | @empty p ps ss hparse _ ih =>
    have hnone : ¬ hasCommands p = true := by
      unfold hasCommands
      rw [hparse]
      exact Bool.false_ne_true
    rw [List.filter_cons_of_neg hnone]
    exact ih
  | @commands p ps ss c cs hparse _ ih =>
    have hsome : hasCommands p = true := by
      unfold hasCommands
      rw [hparse]
      rfl
    obtain ⟨o, ho⟩ := exists_outline t hparse
    rw [List.filter_cons_of_pos hsome, List.filterMap_cons_some (Sketch.painting?_outline ho _)]
    exact .cons ⟨c, cs, o, hparse, ho, rfl⟩ ih

/-- **Every path which has commands has a portion.** -/
theorem portions (h : Sketched ps ss) {r : Registers} (hr : r.Bounded) :
    List.Forall₂
      (fun p q => ∃ c cs o, Path.parse p.data = .ok (c :: cs) ∧
        Outline.ofCommands? t (c :: cs) = some o ∧
        Registers.Gives ⟨opacityWeight p.paint.alpha, o⟩ q)
      (ps.filter hasCommands) (r.portions (ss.filterMap (Sketch.painting? t))) := by
  refine List.forall₂_trans ?_ h.paints (Registers.portions_give hr _)
  rintro p _ q ⟨c, cs, o, hparse, ho, rfl⟩ hgives
  exact ⟨c, cs, o, hparse, ho, hgives⟩

end Sketched

namespace Encoder

/-- **An opaque path alone** has no setting, and the foreground as its
    adjustment. -/
theorem encode_fullWeight (e : Encoder) {d : Drawing} {p : PathElement} {c : Command} {cs : List Command}
    {o : Outline} (hd : d.paths = [p]) (hparse : Path.parse p.data = .ok (c :: cs))
    (ho : Outline.ofCommands? (Transform.fit d.canvas.viewBox e.outputSize) (c :: cs) = some o)
    (hweight : opacityWeight p.paint.alpha = 255) : e.encode d = .ok (e.header ++ 0xc0 :: o.rest) := by
  have hsketches : sketches d.paths = .ok [⟨c :: cs, 255⟩] := by
    have hsketched := sketched_iff.1 (.commands hparse .nil)
    rwa [hweight, ← hd] at hsketched
  have hselect : Registers.empty.select 255 = (0, [], .empty) := if_pos rfl
  rw [encode_eq, hsketches]
  simp only
  unfold body
  rw [List.filterMap_cons_some (Sketch.painting?_outline ho 255), List.filterMap_nil, Registers.groups,
    hselect]
  show Except.ok (e.header ++ (0xc0 :: o.rest ++ [])) = _
  rw [List.append_nil]

/-- **Opaque sketches come first as they are.** -/
theorem body_append {t : Transform} {ss : List Sketch} (h : ∀ s ∈ ss, s.weight = 255)
    (ss' : List Sketch) : body t (ss ++ ss') = body t ss ++ body t ss' := by
  have hpaintings : ∀ p ∈ ss.filterMap (Sketch.painting? t), p.weight = 255 := by
    intro p hp
    obtain ⟨s, hs, hpaint⟩ := List.mem_filterMap.1 hp
    obtain ⟨o, -, rfl⟩ := Option.map_eq_some_iff.1 hpaint
    exact h s hs
  unfold body
  rw [List.filterMap_append, Registers.groups_fullWeight hpaintings, List.flatten_append]

/-- **What a path of a drawing contributes**: a setting of its adjustment or none,
    and, but for that adjustment, the body of the icon it has alone if it is
    opaque. -/
structure Contributes (e : Encoder) (box : ViewBox) (p : PathElement) (q : Portion) : Prop where
  adjustment : q.adjustment.toNat ≤ registerCount
  setting : q.setting = [] ∨
    q.setting = [0xa0 ||| q.adjustment, opacityWeight p.paint.alpha, transparentByte, firstPaletteByte]
  alone : ∀ (e' : Encoder) (d' : Drawing) (p' : PathElement), e'.outputSize = e.outputSize →
    d'.canvas.viewBox = box → d'.paths = [p'] → p'.data = p.data →
    opacityWeight p'.paint.alpha = 255 → e'.encode d' = .ok (e'.header ++ 0xc0 :: q.rest)

/-- **An icon is the header and what the paths contribute, in order.**  Nothing
    leaks from one path into the next, neither through the buffer to which all of
    them are written nor through the registers, but for the adjustments.  So the
    bodies of drawings of opaque paths are put together like the drawings. -/
theorem encode_composes (e : Encoder) (d : Drawing) :
    e.write? d = some (e.encode d) ∧
    (∀ bytes, e.encode d = .ok bytes → ∃ (qs : List Portion) (content : Content),
      bytes = e.header ++ qs.flatMap Portion.bytes ∧
      List.Forall₂ (e.Contributes d.canvas.viewBox) (d.paths.filter hasCommands) qs ∧
      decode bytes = .ok content ∧ content.paths.map (·.adjustment) = qs.map (·.adjustment)) ∧
    ∀ (d' : Drawing) (a b : List UInt8), d'.canvas.viewBox = d.canvas.viewBox →
      (∀ p ∈ d.paths, opacityWeight p.paint.alpha = 255) → e.encode d = .ok (e.header ++ a) →
      e.encode d' = .ok (e.header ++ b) →
      e.encode ⟨d.canvas, d.paths ++ d'.paths⟩ = .ok (e.header ++ (a ++ b)) := by
  refine ⟨e.write?_eq d, fun bytes h => ?_, fun d' a b hbox hfull ha hb => ?_⟩
  · obtain ⟨css, -, -, hread⟩ := readParts_encode h
    obtain ⟨ss, -, hss, hbytes⟩ := encode_eq_ok_iff.1 h
    have hsketched := sketched_iff.2 hss
    refine ⟨Registers.empty.portions (ss.filterMap (Sketch.painting?
      (Transform.fit d.canvas.viewBox e.outputSize))), _, ?_, ?_, by unfold decode; rw [hread], ?_⟩
    · rw [hbytes, body, Registers.groups_portions, ← List.flatMap_def]
    · refine (hsketched.portions Registers.empty_bounded).imp fun p q hpq => ?_
      obtain ⟨c, cs, o, hparse, ho, hadjustment, hsetting, hrest⟩ := hpq
      refine ⟨hadjustment, hsetting, fun e' d' p' hsize hbox hpaths hdata hweight => ?_⟩
      rw [hrest]
      exact e'.encode_fullWeight hpaths (hdata ▸ hparse) (by rw [hsize, hbox]; exact ho) hweight
    · show (Content.pathsOf (Registers.items _ _)).map _ = _
      rw [hsketched.paintings]
      exact Registers.portions_adjustments _ _
  · obtain ⟨ss, hne, hss, ha⟩ := encode_eq_ok_iff.1 ha
    obtain ⟨ss', -, hss', hb⟩ := encode_eq_ok_iff.1 hb
    have hsketched := sketched_iff.2 hss
    have hweights : ∀ s ∈ ss, s.weight = 255 := by
      intro s hs
      obtain ⟨p, hp, hweight⟩ := hsketched.weights s hs
      exact hweight.trans (hfull p hp)
    refine encode_eq_ok_iff.2 ⟨ss ++ ss', List.append_ne_nil_of_left_ne_nil hne ss',
      sketched_iff.1 (hsketched.append (sketched_iff.2 hss')), ?_⟩
    rw [body_append hweights, List.append_cancel_left ha, List.append_cancel_left hb, hbox]

/-- Opaque paths with runs to merge, closes and an empty path. -/
def solidDrawing : Drawing where
  canvas := ⟨24.0, 24.0, ⟨0.0, 0.0, 24.0, 24.0⟩⟩
  paths :=
    [⟨"M4 4l1 1 1 2 2 1zl3 0 1 1Q9 9 8 8t2 1", .default⟩, ⟨",", .default⟩, ⟨"M1 1l1 1 0 3", .default⟩]

/-- Paths of three opacities, one of which comes twice. -/
def shadedDrawing : Drawing where
  canvas := ⟨24.0, 24.0, ⟨0.0, 0.0, 24.0, 24.0⟩⟩
  paths := ([0.25, 1.0, 0.5, 0.25] : List Scalar).map
    fun opacity => ⟨"M2 3l4 1 4 2z", { Paint.default with opacity := some opacity }⟩

theorem encode_composes_solidDrawing :
    (∃ bytes, encode ⟨48.0, .black⟩ shadedDrawing = .ok bytes ∧
      ∃ (qs : List Portion) (content : Content),
        bytes = header ⟨48.0, .black⟩ ++ qs.flatMap Portion.bytes ∧
        List.Forall₂ (Contributes ⟨48.0, .black⟩ shadedDrawing.canvas.viewBox)
          (shadedDrawing.paths.filter hasCommands) qs ∧
        decode bytes = .ok content ∧ content.paths.map (·.adjustment) = qs.map (·.adjustment)) ∧
    ∃ a b, encode ⟨48.0, .black⟩ solidDrawing = .ok (header ⟨48.0, .black⟩ ++ a) ∧
      encode ⟨48.0, .black⟩ shadedDrawing = .ok (header ⟨48.0, .black⟩ ++ b) ∧
      encode ⟨48.0, .black⟩ ⟨solidDrawing.canvas, solidDrawing.paths ++ shadedDrawing.paths⟩ =
        .ok (header ⟨48.0, .black⟩ ++ (a ++ b)) := by
  have hfull : ∀ p ∈ solidDrawing.paths, opacityWeight p.paint.alpha = 255 := by decide +kernel
  obtain ⟨bytes, hshaded⟩ : ∃ bytes, encode ⟨48.0, .black⟩ shadedDrawing = .ok bytes :=
    exists_encode (by decide +kernel)
  obtain ⟨bytes', hsolid⟩ : ∃ bytes, encode ⟨48.0, .black⟩ solidDrawing = .ok bytes :=
    exists_encode (by decide +kernel)
  obtain ⟨ss, -, -, rfl⟩ := encode_eq_ok_iff.1 hshaded
  obtain ⟨ss', -, -, rfl⟩ := encode_eq_ok_iff.1 hsolid
  obtain ⟨-, hportions, -⟩ := encode_composes ⟨48.0, .black⟩ shadedDrawing
  obtain ⟨-, -, hrow⟩ := encode_composes ⟨48.0, .black⟩ solidDrawing
  exact ⟨⟨_, hshaded, hportions _ hshaded⟩, _, _, hsolid, hshaded,
    hrow shadedDrawing _ _ rfl hfull hsolid hshaded⟩

end Encoder

end Icon

end VectorIcon

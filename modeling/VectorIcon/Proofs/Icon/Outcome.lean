/-
  VectorIcon.Proofs.Icon.Outcome
  ────────────────────────────────
  **WHEN A DRAWING IS ENCODED, AND WHAT ITS ICON DEPENDS ON.**

  An encoder looks at two things of a path: the commands of its data and the
  weight of its opacity.  The sketches of a drawing are these, for the paths
  which have commands.  Its icon is the header and the groups of its sketches
  (`Encoder.encode_eq`), so everything there is to say about success, errors and
  dependence is said about the sketches:

      sketches_error_iff     — the first malformed path decides the error
      sketches_nil_iff       — there are none if no path has commands
      sketches_insert        — a path without commands does not count
      Encoder.encode_alike   — sketches no byte tells apart have the same icon
-/
import VectorIcon.Proofs.Icon.Layout
import VectorIcon.Proofs.Icon.Lockstep
import VectorIcon.Proofs.Path.Grammar

namespace VectorIcon

/-! ## §1. Text without commands. -/

/-- Text which only separates has no commands. -/
theorem Path.parse_separators {d : String} (h : Grammar.Separators d.toList) : parse d = .ok [] := by
  have hskip : skipSeparators d.toList = [] := List.dropWhile_eq_nil_iff.2 h
  have hnone : (Reader.ofChars d.toList).command = .ok none := Reader.command_none.2 hskip
  unfold parse parseChars
  simp only
  rw [Reader.readAll_none hnone]

namespace Icon

/-! ## §2. Sketches. -/

/-- What an encoder looks at of a path. -/
structure Sketch where
  commands : List Command
  /-- The weight of the opacity. -/
  weight : UInt8

/-- The commands of a path and the weight of its opacity. -/
def sketch (p : PathElement) : Except Path.Error Sketch :=
  (Path.parse p.data).map (⟨·, opacityWeight p.paint.alpha⟩)

/-- The sketches of the paths which have commands, in order, or the error of the
    first malformed path. -/
def sketches (ps : List PathElement) : Except Path.Error (List Sketch) :=
  (ps.mapM sketch).map (·.filter (!·.commands.isEmpty))

section

variable {p : PathElement} {ps : List PathElement} {f : Path.Error}

theorem sketch_ok_iff : (∃ s, sketch p = .ok s) ↔ ∃ cs, Path.parse p.data = .ok cs := by
  unfold sketch
  cases Path.parse p.data with
  | ok cs => exact ⟨fun _ => ⟨cs, rfl⟩, fun _ => ⟨_, rfl⟩⟩
  | error f =>
    constructor
    · rintro ⟨_, h⟩
      cases h
    · rintro ⟨_, h⟩
      cases h

theorem sketch_error_iff : sketch p = .error f ↔ Path.parse p.data = .error f := by
  unfold sketch
  cases Path.parse p.data with
  | ok cs =>
    constructor
    · intro h
      cases h
    · intro h
      cases h
  | error g => exact ⟨fun h => congrArg Except.error (Except.error.inj h), fun h => congrArg _ h⟩

theorem sketches_malformed (h : Path.parse p.data = .error f) : sketches (p :: ps) = .error f := by
  unfold sketches
  rw [List.mapM_cons, sketch_error_iff.2 h]
  rfl

/-- A path without commands has no sketch. -/
theorem sketches_empty (h : Path.parse p.data = .ok []) : sketches (p :: ps) = sketches ps := by
  unfold sketches
  rw [List.mapM_cons, sketch, h]
  cases ps.mapM sketch <;> rfl

theorem sketches_commands {c : Command} {cs : List Command} (h : Path.parse p.data = .ok (c :: cs)) :
    sketches (p :: ps) = (sketches ps).map (⟨c :: cs, opacityWeight p.paint.alpha⟩ :: ·) := by
  unfold sketches
  rw [List.mapM_cons, sketch, h]
  cases ps.mapM sketch <;> rfl

/-- **The error is that of the first malformed path**, whatever follows it. -/
theorem sketches_error_iff :
    sketches ps = .error f ↔ ∃ before p after, ps = before ++ p :: after ∧
      (∀ q ∈ before, ∃ cs, Path.parse q.data = .ok cs) ∧ Path.parse p.data = .error f := by
  have hall : sketches ps = .error f ↔ ps.mapM sketch = .error f := by
    unfold sketches
    cases ps.mapM sketch with
    | ok ss =>
      constructor
      · intro h
        cases h
      · intro h
        cases h
    | error g => exact ⟨fun h => congrArg Except.error (Except.error.inj h), fun h => congrArg _ h⟩
  rw [hall, List.mapM_error_iff]
  simp only [sketch_ok_iff, sketch_error_iff]

/-- There are sketches if every path is well formed. -/
theorem sketches_ok_iff :
    (∃ ss, sketches ps = .ok ss) ↔ ∀ p ∈ ps, ∃ cs, Path.parse p.data = .ok cs := by
  cases hss : sketches ps with
  | ok ss =>
    refine ⟨fun _ p hp => sketch_ok_iff.1 ?_, fun _ => ⟨ss, rfl⟩⟩
    unfold sketches at hss
    cases hall : ps.mapM sketch with
    | ok all => exact List.exists_of_mapM hall p hp
    | error f =>
      rw [hall] at hss
      cases hss
  | error f =>
    obtain ⟨before, p, after, rfl, -, hp⟩ := sketches_error_iff.1 hss
    refine ⟨(fun ⟨_, h⟩ => nomatch h), fun h => ?_⟩
    obtain ⟨cs, hcs⟩ := h p (List.mem_append_right _ List.mem_cons_self)
    rw [hp] at hcs
    cases hcs

/-- **There are no sketches** if all paths are well formed and none of them has
    commands. -/
theorem sketches_nil_iff : sketches ps = .ok [] ↔ ∀ p ∈ ps, Path.parse p.data = .ok [] := by
  induction ps with
  | nil => exact ⟨fun _ p hp => (List.not_mem_nil hp).elim, fun _ => rfl⟩
  | cons p ps ih =>
    rw [List.forall_mem_cons, ← ih]
    match hparse : Path.parse p.data with
    | .error f =>
      rw [sketches_malformed hparse]
      exact ⟨(nomatch ·), fun h => nomatch h.1⟩
    | .ok [] =>
      rw [sketches_empty hparse]
      exact ⟨fun h => ⟨rfl, h⟩, fun h => h.2⟩
    | .ok (c :: cs) =>
      rw [sketches_commands hparse]
      refine ⟨fun h => ?_, fun h => nomatch h.1⟩
      cases hrest : sketches ps with
      | ok ss =>
        rw [hrest] at h
        cases h
      | error f =>
        rw [hrest] at h
        cases h

/-- **A path without commands does not count**, wherever it stands. -/
theorem sketches_insert (h : Path.parse p.data = .ok []) (before after : List PathElement) :
    sketches (before ++ p :: after) = sketches (before ++ after) := by
  induction before with
  | nil => exact sketches_empty h
  | cons q before ih =>
    show sketches (q :: (before ++ p :: after)) = sketches (q :: (before ++ after))
    match hparse : Path.parse q.data with
    | .error f => rw [sketches_malformed hparse, sketches_malformed hparse]
    | .ok [] => rw [sketches_empty hparse, sketches_empty hparse, ih]
    | .ok (c :: cs) => rw [sketches_commands hparse, sketches_commands hparse, ih]

/-- How the sketches of paths come about, path by path. -/
inductive Sketched : List PathElement → List Sketch → Prop where
  | nil : Sketched [] []
  | empty {p : PathElement} {ps : List PathElement} {ss : List Sketch} :
    Path.parse p.data = .ok [] → Sketched ps ss → Sketched (p :: ps) ss
  | commands {p : PathElement} {ps : List PathElement} {ss : List Sketch} {c : Command}
    {cs : List Command} : Path.parse p.data = .ok (c :: cs) → Sketched ps ss →
    Sketched (p :: ps) (⟨c :: cs, opacityWeight p.paint.alpha⟩ :: ss)

theorem sketched_iff {ss : List Sketch} : Sketched ps ss ↔ sketches ps = .ok ss := by
  constructor
  · intro h
    induction h with
    | nil => rfl
    | empty hparse _ ih => exact (sketches_empty hparse).trans ih
    | commands hparse _ ih =>
      rw [sketches_commands hparse, ih]
      rfl
  · intro h
    induction ps generalizing ss with
    | nil =>
      cases h
      exact .nil
    | cons p ps ih =>
      match hparse : Path.parse p.data with
      | .error f =>
        rw [sketches_malformed hparse] at h
        cases h
      | .ok [] =>
        rw [sketches_empty hparse] at h
        exact .empty hparse (ih h)
      | .ok (c :: cs) =>
        rw [sketches_commands hparse] at h
        cases hrest : sketches ps with
        | error f =>
          rw [hrest] at h
          cases h
        | ok ss' =>
          rw [hrest] at h
          cases h
          exact .commands hparse (ih hrest)

/-- A sketch begins with a move. -/
theorem Sketched.starts {ss : List Sketch} (h : Sketched ps ss) :
    ∀ s ∈ ss, ∃ f target cs, s.commands = .moveTo f target :: cs := by
  induction h with
  | nil =>
    intro s hs
    cases hs
  | empty _ _ ih => exact ih
  | commands hparse _ ih =>
    refine List.forall_mem_cons.2 ⟨?_, ih⟩
    rcases Path.parse_starts hparse with hnil | ⟨f, target, rest, hstart⟩
    · cases hnil
    · exact ⟨f, target, rest, hstart⟩

end

/-! ## §3. Groups of sketches. -/

/-- What a sketch paints; nothing if it does not begin with a move. -/
def Sketch.painting? (t : Transform) (s : Sketch) : Option Painting :=
  (Outline.ofCommands? t s.commands).map (⟨s.weight, ·⟩)

theorem Sketch.painting?_outline {t : Transform} {cs : List Command} {o : Outline}
    (ho : Outline.ofCommands? t cs = some o) (weight : UInt8) :
    Sketch.painting? t ⟨cs, weight⟩ = some ⟨weight, o⟩ := by
  unfold Sketch.painting?
  rw [ho]
  rfl

/-- The group of every painting: the setting of its register if one is written,
    and its outline. -/
def Registers.groups (r : Registers) : List Painting → List (List UInt8)
  | [] => []
  | p :: ps => ((r.select p.weight).2.1 ++ p.outline.bytes (r.select p.weight).1) ::
      Registers.groups (r.select p.weight).2.2 ps

/-- **The groups of paths are those of their sketches.** -/
theorem Encoder.groups_eq (t : Transform) (r : Registers) (ps : List PathElement) :
    Encoder.groups t r ps =
      (sketches ps).map fun ss => r.groups (ss.filterMap (Sketch.painting? t)) := by
  -- the registers are passed on from path to path
  induction ps generalizing r with
  | nil => rfl
  | cons p ps ih =>
    match hparse : Path.parse p.data with
    | .error f =>
      rw [sketches_malformed hparse, Encoder.groups, hparse]
      rfl
    | .ok [] => rw [sketches_empty hparse, groups_empty hparse, ih]
    | .ok (c :: cs) =>
      obtain ⟨o, ho⟩ := exists_outline t hparse
      rw [sketches_commands hparse, groups_outline hparse ho, ih]
      cases sketches ps with
      | error f => rfl
      | ok ss =>
        show Except.ok _ = Except.ok (r.groups (List.filterMap _ (_ :: ss)))
        rw [List.filterMap_cons_some (Sketch.painting?_outline ho _)]
        rfl

/-- What an icon has after its header. -/
def Encoder.body (t : Transform) (ss : List Sketch) : List UInt8 :=
  (Registers.empty.groups (ss.filterMap (Sketch.painting? t))).flatten

namespace Encoder

/-- **An icon is a header and the groups of sketches**, if there are any. -/
theorem encode_eq (e : Encoder) (d : Drawing) :
    e.encode d = match sketches d.paths with
      | .error f => .error (.malformedPath f)
      | .ok [] => .error .emptyDrawing
      | .ok ss => .ok (e.header ++ body (Transform.fit d.canvas.viewBox e.outputSize) ss) := by
  unfold encode
  rw [groups_eq]
  match hss : sketches d.paths with
  | .error f => rfl
  | .ok [] => rfl
  | .ok (s :: ss) =>
    -- the first sketch begins with a move, so there is a group
    obtain ⟨f, target, cs, hs⟩ := (sketched_iff.2 hss).starts s List.mem_cons_self
    have hgroups : ∃ g gs, Registers.empty.groups ((s :: ss).filterMap
        (Sketch.painting? (Transform.fit d.canvas.viewBox e.outputSize))) = g :: gs := by
      rw [List.filterMap_cons, Sketch.painting?, hs]
      exact ⟨_, _, rfl⟩
    obtain ⟨g, gs, hg⟩ := hgroups
    unfold body
    simp only [Except.map, hg]

/-- An icon is made of sketches, of at least one. -/
theorem encode_eq_ok_iff {e : Encoder} {d : Drawing} {bytes : List UInt8} :
    e.encode d = .ok bytes ↔ ∃ ss, ss ≠ [] ∧ sketches d.paths = .ok ss ∧
      bytes = e.header ++ body (Transform.fit d.canvas.viewBox e.outputSize) ss := by
  rw [encode_eq]
  match sketches d.paths with
  | .error f => exact ⟨(nomatch ·), fun ⟨_, _, h, _⟩ => nomatch h⟩
  | .ok [] => exact ⟨(nomatch ·), fun ⟨_, hne, h, _⟩ => absurd (Except.ok.inj h).symm hne⟩
  | .ok (s :: ss) =>
    constructor
    · intro h
      exact ⟨s :: ss, List.cons_ne_nil s ss, rfl, (Except.ok.inj h).symm⟩
    · rintro ⟨_, -, h, rfl⟩
      cases h
      rfl

/-- **Success** needs nothing but well formed paths and a command. -/
theorem encode_ok_iff (e : Encoder) (d : Drawing) :
    (∃ bytes, e.encode d = .ok bytes) ↔
      (∀ p ∈ d.paths, ∃ cs, Path.parse p.data = .ok cs) ∧
        ∃ p ∈ d.paths, ∃ c cs, Path.parse p.data = .ok (c :: cs) := by
  have hsome : (∃ bytes, e.encode d = .ok bytes) ↔ (∃ ss, sketches d.paths = .ok ss) ∧
      ¬ sketches d.paths = .ok [] := by
    simp only [encode_eq_ok_iff]
    constructor
    · rintro ⟨_, ss, hne, hss, -⟩
      exact ⟨⟨ss, hss⟩, fun hnil => hne (Except.ok.inj (hss.symm.trans hnil))⟩
    · rintro ⟨⟨ss, hss⟩, hne⟩
      exact ⟨_, ss, fun hnil => hne (hnil ▸ hss), hss, rfl⟩
  rw [hsome, sketches_ok_iff, sketches_nil_iff]
  refine and_congr_right fun hparse => ⟨fun h => ?_, ?_⟩
  · -- some path is well formed, but not without commands
    obtain ⟨p, hp⟩ := not_forall.1 h
    obtain ⟨hmem, hne⟩ := Classical.not_imp.1 hp
    obtain ⟨cs, hcs⟩ := hparse p hmem
    cases cs with
    | nil => exact absurd hcs hne
    | cons c cs => exact ⟨p, hmem, c, cs, hcs⟩
  · rintro ⟨p, hmem, c, cs, hcs⟩ h
    have hnil := h p hmem
    rw [hcs] at hnil
    cases hnil

/-- **The errors**: a malformed path, or no command at all. -/
theorem encode_error_iff (e : Encoder) (d : Drawing) (error : Error) :
    e.encode d = .error error ↔
      (∃ f, sketches d.paths = .error f ∧ error = .malformedPath f) ∨
        sketches d.paths = .ok [] ∧ error = .emptyDrawing := by
  rw [encode_eq]
  match sketches d.paths with
  | .error f =>
    constructor
    · intro h
      exact .inl ⟨f, rfl, (Except.error.inj h).symm⟩
    · rintro (⟨g, hg, rfl⟩ | ⟨h, -⟩)
      · cases hg
        rfl
      · cases h
  | .ok [] =>
    constructor
    · intro h
      exact .inr ⟨rfl, (Except.error.inj h).symm⟩
    · rintro (⟨g, hg, -⟩ | ⟨-, rfl⟩)
      · cases hg
      · rfl
  | .ok (s :: ss) =>
    constructor
    · intro h
      cases h
    · rintro (⟨g, hg, -⟩ | ⟨h, -⟩)
      · cases hg
      · cases h

end Encoder

/-! ## §4. What no byte tells apart. -/

/-- Paintings of the same weight, whose outlines have the same bytes. -/
def Painting.Alike (p q : Painting) : Prop :=
  p.weight = q.weight ∧ ∀ adjustment, p.outline.bytes adjustment = q.outline.bytes adjustment

/-- Paintings which are alike have the same groups, and take the same
    registers. -/
theorem Registers.groups_alike {ps qs : List Painting} (h : List.Forall₂ Painting.Alike ps qs)
    (r : Registers) : r.groups ps = r.groups qs := by
  induction h generalizing r with
  | nil => rfl
  | cons hpq _ ih =>
    obtain ⟨hweight, hbytes⟩ := hpq
    unfold Registers.groups
    rw [hweight, hbytes, ih]

/-- Sketches of the same weight, whose outlines have the same bytes. -/
def Sketch.Alike (t : Transform) (s s' : Sketch) : Prop :=
  s.weight = s'.weight ∧
    Option.Rel (fun o o' => ∀ adjustment, o.bytes adjustment = o'.bytes adjustment)
      (Outline.ofCommands? t s.commands) (Outline.ofCommands? t s'.commands)

theorem Encoder.body_alike {t : Transform} {ss ss' : List Sketch} (h : List.Forall₂ (Sketch.Alike t) ss ss') :
    body t ss = body t ss' := by
  have hpaintings : List.Forall₂ Painting.Alike (ss.filterMap (Sketch.painting? t))
      (ss'.filterMap (Sketch.painting? t)) := by
    refine List.rel_filterMap (R := Sketch.Alike t) (fun s s' hs => ?_) h
    obtain ⟨hweight, houtlines⟩ := hs
    unfold Sketch.painting?
    generalize Outline.ofCommands? t s.commands = o at houtlines
    generalize Outline.ofCommands? t s'.commands = o' at houtlines
    cases houtlines with
    | none => exact .none
    | some hbytes => exact .some ⟨hweight, hbytes⟩
  exact congrArg List.flatten (Registers.groups_alike hpaintings .empty)

/-- **Drawings no byte tells apart have the same icon.** -/
theorem Encoder.encode_alike (e : Encoder) {d d' : Drawing} (hbox : d'.canvas.viewBox = d.canvas.viewBox)
    {ss ss' : List Sketch} (hss : sketches d.paths = .ok ss) (hss' : sketches d'.paths = .ok ss')
    (h : List.Forall₂ (Sketch.Alike (Transform.fit d.canvas.viewBox e.outputSize)) ss ss') :
    e.encode d' = e.encode d := by
  rw [encode_eq, encode_eq, hss, hss', hbox]
  cases h with
  | nil => rfl
  | cons hs hrest => exact congrArg (fun b => Except.ok (e.header ++ b)) (body_alike (.cons hs hrest)).symm

/-! ## §5. Outcome and dependence. -/

/-- Equal commands with the same weight. -/
def Sketch.Equal (s s' : Sketch) : Prop :=
  EqualCommands s.commands s'.commands ∧ s.weight = s'.weight

instance Sketch.decidableEqual (s s' : Sketch) : Decidable (s.Equal s') :=
  inferInstanceAs (Decidable (EqualCommands s.commands s'.commands ∧ s.weight = s'.weight))

/-- The data and the weight of a path are all that counts of it, even for an
    error. -/
theorem sketches_congr {ps qs : List PathElement}
    (h : List.Forall₂ (fun p q => p.data = q.data ∧
      opacityWeight p.paint.alpha = opacityWeight q.paint.alpha) ps qs) : sketches ps = sketches qs := by
  have hall : ps.mapM sketch = qs.mapM sketch := by
    induction h with
    | nil => rfl
    | @cons p q ps qs hpq _ ih =>
      obtain ⟨hdata, hweight⟩ := hpq
      have hsketch : sketch p = sketch q := by
        unfold sketch
        rw [hdata, hweight]
      rw [List.mapM_cons, List.mapM_cons, hsketch, ih]
  unfold sketches
  rw [hall]

/-- **The outcome of encoding and what it depends on.**  A drawing has an icon
    exactly if all its paths are well formed and one of them has a command.  Else
    the error is that of the first malformed path, or, if there is none, that the
    drawing is empty.  The icon depends on the view box and on the sketches; the
    size of the canvas, fills, spellings and paths of nothing but separators do
    not count. -/
theorem Encoder.encode_outcome (e : Encoder) (d : Drawing) :
    ((∃ bytes, e.encode d = .ok bytes) ↔
      (∀ p ∈ d.paths, ∃ cs, Path.parse p.data = .ok cs) ∧
        ∃ p ∈ d.paths, ∃ c cs, Path.parse p.data = .ok (c :: cs)) ∧
    (∀ error, e.encode d = .error error ↔
      (∃ before p after f, d.paths = before ++ p :: after ∧
        (∀ q ∈ before, ∃ cs, Path.parse q.data = .ok cs) ∧ Path.parse p.data = .error f ∧
        error = .malformedPath f) ∨
      (∀ p ∈ d.paths, Path.parse p.data = .ok []) ∧ error = .emptyDrawing) ∧
    (∀ (d' : Drawing) (ss ss' : List Sketch), d'.canvas.viewBox = d.canvas.viewBox →
      sketches d.paths = .ok ss → sketches d'.paths = .ok ss' → List.Forall₂ Sketch.Equal ss ss' →
      e.encode d' = e.encode d) ∧
    (∀ d' : Drawing, d'.canvas.viewBox = d.canvas.viewBox →
      List.Forall₂ (fun p q => p.data = q.data ∧
        opacityWeight p.paint.alpha = opacityWeight q.paint.alpha) d.paths d'.paths →
      e.encode d' = e.encode d) ∧
    ∀ (before after : List PathElement) (p : PathElement), d.paths = before ++ after →
      Path.Grammar.Separators p.data.toList →
      e.encode { d with paths := before ++ p :: after } = e.encode d := by
  refine ⟨e.encode_ok_iff d, fun error => ?_, ?_, ?_, ?_⟩
  · rw [encode_error_iff, sketches_nil_iff]
    simp only [sketches_error_iff]
    constructor
    · rintro (⟨f, ⟨before, p, after, hd, hbefore, hp⟩, herror⟩ | h)
      · exact .inl ⟨before, p, after, f, hd, hbefore, hp, herror⟩
      · exact .inr h
    · rintro (⟨before, p, after, f, hd, hbefore, hp, herror⟩ | h)
      · exact .inl ⟨f, ⟨before, p, after, hd, hbefore, hp⟩, herror⟩
      · exact .inr h
  · intro d' ss ss' hbox hss hss' hequal
    exact e.encode_alike hbox hss hss'
      (hequal.imp fun _ _ hs => ⟨hs.2, hs.1.outlines (Transform.fit d.canvas.viewBox e.outputSize)⟩)
  · intro d' hbox hpaths
    rw [encode_eq, encode_eq, hbox, sketches_congr hpaths]
  · intro before after p hd hp
    rw [encode_eq, encode_eq]
    show (match sketches (before ++ p :: after) with | .error f => _ | .ok [] => _ | .ok ss => _) = _
    rw [sketches_insert (Path.parse_separators hp), ← hd]

/-- A drawing with an opaque path, a translucent one and one without commands. -/
def plainDrawing : Drawing where
  canvas := ⟨24.0, 24.0, ⟨0.0, 0.0, 24.0, 24.0⟩⟩
  paths :=
    [⟨"M4 4h4v-2.5Z", .default⟩, ⟨" ", .default⟩,
     ⟨"M0 8L.5 1 2 0", { Paint.default with opacity := some 0.5 }⟩]

/-- The same commands in other words, with other fills on another canvas. -/
def respeltDrawing : Drawing where
  canvas := ⟨512.0, 64.0, ⟨0.0, 0.0, 24.0, 24.0⟩⟩
  paths :=
    [⟨"\tM +4,4.0 h 40e-1 v -2.50 z", { Paint.default with fill := "red" }⟩,
     ⟨"M-0 8L0.5,1L2 0", { Paint.default with fill := "none", fillOpacity := some 0.5 }⟩]

theorem Encoder.encode_outcome_respeltDrawing :
    ∃ bytes, Encoder.encode ⟨48.0, .black⟩ plainDrawing = .ok bytes ∧
      Encoder.encode ⟨48.0, .black⟩ respeltDrawing = .ok bytes ∧
      Encoder.encode ⟨48.0, .black⟩ ⟨respeltDrawing.canvas, plainDrawing.paths⟩ = .ok bytes ∧
      Encoder.encode ⟨48.0, .black⟩ ⟨plainDrawing.canvas, ⟨",\n", .default⟩ :: plainDrawing.paths⟩ =
        .ok bytes := by
  obtain ⟨-, -, hequal, hsame, hinsert⟩ := Encoder.encode_outcome ⟨48.0, .black⟩ plainDrawing
  obtain ⟨bytes, hbytes⟩ : ∃ bytes, Encoder.encode ⟨48.0, .black⟩ plainDrawing = .ok bytes :=
    exists_encode (by decide +kernel)
  obtain ⟨ss, hss⟩ : ∃ ss, sketches plainDrawing.paths = .ok ss := Except.exists_ok (by decide +kernel)
  obtain ⟨ss', hss'⟩ : ∃ ss', sketches respeltDrawing.paths = .ok ss' := Except.exists_ok (by decide +kernel)
  have hsketches : List.Forall₂ Sketch.Equal ((sketches plainDrawing.paths).toOption.getD [])
      ((sketches respeltDrawing.paths).toOption.getD []) := by
    decide +kernel
  rw [hss, hss'] at hsketches
  have hgap : ",\n".toList.all Path.isSeparator = true := by decide +kernel
  refine ⟨bytes, hbytes, (hequal respeltDrawing ss ss' rfl hss hss' hsketches).trans hbytes,
    (hsame ⟨respeltDrawing.canvas, plainDrawing.paths⟩ rfl ?_).trans hbytes,
    (hinsert [] plainDrawing.paths ⟨",\n", .default⟩ rfl (List.all_eq_true.1 hgap)).trans hbytes⟩
  exact List.forall₂_same.2 fun p _ => ⟨rfl, rfl⟩

end Icon

end VectorIcon

/-
  VectorIcon.Proofs.Icon.RoundTrip
  ────────────────────────────────
  **AN ICON HAS THE SEGMENTS OF ITS DRAWING.**

  Which segments there are does not depend on numbers: a command draws one
  segment of its kind, in the icon as in the reference, whether it is written as
  a smooth curve or with all its control points.  By `Simulates.outline` whole
  paths agree in the number, the kinds and the flags of their segments, and by
  `Encoder.decode_encode` whole icons do.
-/
import VectorIcon.Proofs.Icon.Layout
import VectorIcon.Proofs.Icon.Simulation

namespace VectorIcon

namespace Icon

/-- Segments of the same kind, with the same flags. -/
def SameKind (a b : Segment) : Prop := sameKind a b = true

/-- What a command draws on an open sub-path has the kind of its reference. -/
theorem draw_sameKind (t : Transform) (read : Scalar → Scalar) (pen : Pen) (plotter : Plotter)
    (cursor : Cursor) {c : Command} (hc : Pen.needsOpen c = true) :
    List.Forall₂ SameKind (plotter.segments ((pen.draw t c).1.map (Instruction.readAs read)))
      [mapSegment t (cursor.resolve c)] := by
  cases c with
  | moveTo | close => cases hc
  | lineTo | horizontalTo | verticalTo | cubicTo | quadTo => exact .cons rfl .nil
  | smoothCubicTo f second target =>
    -- smooth or not, it is a cubic
    unfold Pen.draw
    simp only
    split <;> exact .cons rfl .nil
  | smoothQuadTo f target =>
    unfold Pen.draw
    simp only
    split <;> exact .cons rfl .nil
  | arcTo f shape target =>
    refine .cons ?_ .nil
    show (shape.large == shape.large && shape.sweep == shape.sweep) = true
    rw [beq_self_eq_true, beq_self_eq_true]
    rfl

/-- Kinds agree at every stage. -/
theorem simulates_sameKind (t : Transform) (read : Scalar → Scalar) :
    Simulates t read SameKind (fun _ => True) (fun _ _ => True) where
  closing _ _ := rfl
  close _ := trivial
  move _ _ := ⟨rfl, trivial⟩
  restart _ _ _ _ := ⟨rfl, trivial⟩
  draw _ _ hc _ := ⟨draw_sameKind _ _ _ _ _ hc, trivial⟩

/-- A shown path has the kinds of its reference. -/
theorem shows_sameKind {t : Transform} {cs : List Command} {painted : PaintedPath}
    (h : Shows t cs painted) : List.Forall₂ SameKind painted.segments (reference t cs) := by
  obtain ⟨o, ho, hstrokes⟩ := h
  unfold PaintedPath.segments
  rw [hstrokes]
  match cs, ho with
  | .moveTo f target :: cs, ho =>
    exact (simulates_sameKind t recoverCoordinate).outline ho (fun _ _ => trivial)
      fun _ => ⟨rfl, trivial⟩

/-- **An icon has the segments of its drawing.**  What is encoded is decoded
    without an error; there is one path for each path data with commands, in the
    order of the drawing; and its segments agree with the reference in number,
    kind and flags. -/
theorem Encoder.decode_encode_sameKind (e : Encoder) (d : Drawing) (bytes : List UInt8)
    (h : e.encode d = .ok bytes) :
    ∃ (content : Content) (css : List (List Command)),
      decode bytes = .ok content ∧ d.paths.mapM (fun p => Path.parse p.data) = .ok css ∧
      List.Forall₂
        (fun painted cs => List.Forall₂ (fun a b => sameKind a b = true) painted.segments
          (reference (Transform.fit d.canvas.viewBox e.outputSize) cs))
        content.paths (css.filter (!·.isEmpty)) := by
  obtain ⟨css, content, hcss, hcontent, hshows⟩ := e.decode_encode h
  refine ⟨content, css, hcontent, hcss, ?_⟩
  exact (hshows.imp fun _ _ hshow => shows_sameKind hshow).flip

/-- A drawing with every command: moves in a row, a close repeated, drawing after
    a close, and a path without commands. -/
def sampleDrawing : Drawing where
  canvas := ⟨24.0, 24.0, ⟨0.0, 0.0, 24.0, 24.0⟩⟩
  paths :=
    [⟨"M1 1h4v4Z m2 2 q1 0 1 1 t2 0 T.3 .7 Z Z l0 1 M9 9 M3 3 C4 4 5 5 6 6 s1 1 2 2", .default⟩,
     ⟨"", .default⟩, ⟨"m1 2a3 4 5 1 0 6 7z", .default⟩]

theorem Encoder.decode_encode_sameKind_sample :
    ∃ bytes, Encoder.encode ⟨48.0, .black⟩ sampleDrawing = .ok bytes ∧
      ∃ (content : Content) (css : List (List Command)),
        decode bytes = .ok content ∧
        sampleDrawing.paths.mapM (fun p => Path.parse p.data) = .ok css ∧
        List.Forall₂
          (fun painted cs => List.Forall₂ (fun a b => sameKind a b = true) painted.segments
            (reference (Transform.fit sampleDrawing.canvas.viewBox 48.0) cs))
          content.paths (css.filter (!·.isEmpty)) := by
  have hsome : (Encoder.encode ⟨48.0, .black⟩ sampleDrawing).toOption.isSome = true := by
    decide +kernel
  obtain ⟨bytes, h⟩ := exists_encode hsome
  exact ⟨bytes, h, decode_encode_sameKind ⟨48.0, .black⟩ sampleDrawing bytes h⟩

end Icon

end VectorIcon

/-
  VectorIcon.Proofs.Element.Outline
  ────────────────────────────────
  **SHAPES ARE THE PATHS THEY ARE CONVERTED INTO.**

  The outline of a basic shape begins with a move, if it is not empty, so its
  path data is read back as the outline (`Path.parse_format_ok`), unless a number
  of the outline is not finite (`Path.parse_format_error`).  Those numbers include
  the ones which are computed for the outline, and may overflow although the
  shape has finite numbers.

      Element.toPath_commands — the path of a shape draws the outline, or is
                                refused
-/
import VectorIcon.Element.Outline
import VectorIcon.Proofs.Path.Refusal

namespace VectorIcon

/-- An outline begins with a move, if there is any. -/
theorem Shape.outline_starts (s : Shape) :
    s.outline = [] ∨ ∃ f p rest, s.outline = .moveTo f p :: rest := by
  cases s with
  | path d => exact .inl rfl
  | circle c => exact .inr ⟨_, _, _, rfl⟩
  | rect r => exact .inr ⟨_, _, _, rfl⟩
  | ellipse e => exact .inr ⟨_, _, _, rfl⟩
  | polygon p =>
    obtain ⟨points, closed⟩ := p
    cases points with
    | nil => exact .inl rfl
    | cons q qs => exact .inr ⟨_, _, _, rfl⟩

namespace Element

/-- The data of the path is that of the outline. -/
theorem toPath_data {e : Element} (h : ∀ d, e.shape ≠ .path d) :
    e.toPath.data = Path.format e.shape.outline := by
  obtain ⟨shape, paint⟩ := e
  cases shape with
  | path d => exact absurd rfl (h d)
  | circle | rect | ellipse | polygon => rfl

/-- The commands are the outline. -/
theorem commands_eq {e : Element} (h : ∀ d, e.shape ≠ .path d) : e.commands = .ok e.shape.outline := by
  obtain ⟨shape, paint⟩ := e
  cases shape with
  | path d => exact absurd rfl (h d)
  | circle | rect | ellipse | polygon => rfl

/-- **A shape survives its conversion into a path.**  The path data is read if and
    only if all numbers of the outline are finite, as commands which equal the
    outline; otherwise a number is missing in it.  The paint is the same. -/
theorem toPath_commands (e : Element) (h : ∀ d, e.shape ≠ .path d) :
    ∃ outline, e.commands = .ok outline ∧
      ((∃ cs, Path.parse e.toPath.data = .ok cs) ↔ ∀ c ∈ outline, Path.Finite c) ∧
      ((∀ c ∈ outline, Path.Finite c) →
        ∃ cs, Path.parse e.toPath.data = .ok cs ∧ (cs == outline) = true) ∧
      ((¬∀ c ∈ outline, Path.Finite c) →
        ∃ error, Path.parse e.toPath.data = .error error ∧ error.cause = .expectedNumber) ∧
      e.toPath.paint = e.paint := by
  have hok := Path.parse_format_ok (Shape.outline_starts e.shape)
  have herror (hnot : ¬∀ c ∈ e.shape.outline, Path.Finite c) :
      ∃ error, Path.parse (Path.format e.shape.outline) = .error error ∧ error.cause = .expectedNumber := by
    refine Path.parse_format_error ((Shape.outline_starts e.shape).resolve_left fun hnil => hnot ?_) hnot
    rw [hnil]
    exact fun c hc => absurd hc List.not_mem_nil
  refine ⟨e.shape.outline, commands_eq h, ?_⟩
  rw [toPath_data h]
  refine ⟨⟨?_, fun hall => ?_⟩, hok, herror, rfl⟩
  · rintro ⟨cs, hcs⟩
    by_contra hnot
    obtain ⟨error, hparse, -⟩ := herror hnot
    rw [hparse] at hcs
    cases hcs
  · obtain ⟨cs, hparse, -⟩ := hok hall
    exact ⟨cs, hparse⟩

/-- A box with a negative width from minus zero is read back; an ellipse with finite
    radii is not, since its diameter overflows. -/
theorem toPath_commands_overflow :
    (∃ cs, Path.parse (toPath ⟨.rect ⟨-0.0, 0.5, -3.0, 1e-7⟩, ⟨"red", some 0.5, none⟩⟩).data = .ok cs ∧
      (cs == Rect.outline ⟨-0.0, 0.5, -3.0, 1e-7⟩) = true) ∧
    ∃ error, Path.parse (toPath ⟨.ellipse ⟨0.0, 0.0, 3e38, 1.0⟩, .default⟩).data = .error error ∧
      error.cause = .expectedNumber := by
  have hrect : ∀ c ∈ Rect.outline ⟨-0.0, 0.5, -3.0, 1e-7⟩, Path.Finite c := by
    unfold Path.Finite
    decide +kernel
  have hellipse : ¬∀ c ∈ Ellipse.outline ⟨0.0, 0.0, 3e38, 1.0⟩, Path.Finite c := by
    unfold Path.Finite
    decide +kernel
  constructor
  · obtain ⟨outline, hcommands, -, hread, -⟩ :=
      toPath_commands ⟨.rect ⟨-0.0, 0.5, -3.0, 1e-7⟩, ⟨"red", some 0.5, none⟩⟩ fun d => Shape.noConfusion
    cases hcommands
    exact hread hrect
  · obtain ⟨outline, hcommands, -, -, hrefused, -⟩ :=
      toPath_commands ⟨.ellipse ⟨0.0, 0.0, 3e38, 1.0⟩, .default⟩ fun d => Shape.noConfusion
    cases hcommands
    exact hrefused hellipse

end Element

end VectorIcon

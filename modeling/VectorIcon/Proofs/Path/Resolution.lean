/-
  VectorIcon.Proofs.Path.Resolution
  ────────────────────────────────
  **SHORTHAND COMMANDS STAND FOR EXPLICIT ONES.**

  The cursor between two commands is a summary of the segments which were drawn:
  where the last one ended, where the latest move went, which control point the
  last one left (`Cursor.ofSegments`).  One command keeps this
  (`Cursor.advance_ofSegments`), so does a row of commands
  (`Cursor.after_ofSegments`).  What relative operands, smooth curves and a close
  mean can therefore be told from the segments before them, and:

      Path.resolve_shorthand — the segments of commands are those of their
                               explicit forms, and what shorthands stand for
-/
import VectorIcon.Path.Segment

namespace VectorIcon

/-! ## §1. Explicit commands. -/

namespace Segment

/-- The command which draws the segment and leaves nothing to the cursor but the
    start of the sub-path. -/
def explicit : Segment → Command
  | .move target => .moveTo .absolute target
  | .line target => .lineTo .absolute target
  | .quad control target => .quadTo .absolute control target
  | .cubic first second target => .cubicTo .absolute first second target
  | .arc shape target => .arcTo .absolute shape target
  | .close _ => .close

/-- The target of a move. -/
def moveTarget? : Segment → Option Point
  | .move target => some target
  | _ => none

end Segment

/-! ## §2. What the segments before a command tell. -/

namespace Path

/-- Where the last segment ends, the origin before the first one. -/
def currentPoint (ss : List Segment) : Point := (ss.getLast?.map Segment.destination).getD .origin

/-- The destination of the latest move, the origin if there is none. -/
def latestMove (ss : List Segment) : Point := (ss.filterMap Segment.moveTarget?).getLast?.getD .origin

/-- The control point of a smooth curve of the family: the last control point of
    the last segment, if that is a curve of the family, reflected at its end;
    the current point otherwise. -/
def impliedControl (family : CurveFamily) (ss : List Segment) : Point :=
  match ss.getLast? with
  | some (.quad control target) => if family = .quad then control.reflect target else target
  | some (.cubic _ second target) => if family = .cubic then second.reflect target else target
  | _ => currentPoint ss

end Path

open VectorIcon.Path (currentPoint latestMove impliedControl)

namespace Cursor

/-- The state which segments leave behind. -/
def ofSegments (ss : List Segment) : Cursor where
  position := currentPoint ss
  start := latestMove ss
  control := ss.getLast?.bind controlAfter

/-- The state after commands. -/
def after (c : Cursor) (cs : List Command) : Cursor := cs.foldl (fun c cmd => (c.step cmd).2) c

theorem after_concat (c : Cursor) (before : List Command) (cmd : Command) :
    c.after (before ++ [cmd]) = ((c.after before).step cmd).2 := by
  unfold after
  rw [List.foldl_append]
  rfl

/-- **One segment more.** -/
theorem advance_ofSegments (ss : List Segment) (s : Segment) :
    (ofSegments ss).advance s = ofSegments (ss ++ [s]) := by
  have hlast : (ss ++ [s]).getLast? = some s := List.getLast?_concat
  have hposition : s.destination = currentPoint (ss ++ [s]) := by
    unfold currentPoint
    rw [hlast]
    rfl
  have hcontrol : controlAfter s = (ss ++ [s]).getLast?.bind controlAfter := by
    rw [hlast]
    rfl
  unfold advance ofSegments
  rw [← hposition, ← hcontrol]
  congr 1
  -- only a move changes the start
  unfold latestMove
  rw [List.filterMap_append]
  cases s with
  | move target =>
    show target = ((ss.filterMap Segment.moveTarget?) ++ [target]).getLast?.getD .origin
    rw [List.getLast?_concat]
    rfl
  | line | quad | cubic | arc | close =>
    show _ = ((ss.filterMap Segment.moveTarget?) ++ []).getLast?.getD .origin
    rw [List.append_nil]

/-- **A row of commands more**: the state after them is that of all segments. -/
theorem after_ofSegments (ss : List Segment) (cs : List Command) :
    (ofSegments ss).after cs = ofSegments (ss ++ (ofSegments ss).resolveAll cs) := by
  -- on the commands, after any segments: each command adds its segment to these
  induction cs generalizing ss with
  | nil =>
    show ofSegments ss = ofSegments (ss ++ [])
    rw [List.append_nil]
  | cons cmd cs ih =>
    have hstep : ((ofSegments ss).step cmd).2 = ofSegments (ss ++ [(ofSegments ss).resolve cmd]) :=
      advance_ofSegments ss _
    show ((ofSegments ss).step cmd).2.after cs =
      ofSegments (ss ++ (ofSegments ss).resolve cmd :: ((ofSegments ss).step cmd).2.resolveAll cs)
    rw [hstep, ih, List.append_assoc, List.singleton_append]

/-- The state after the commands of a path. -/
theorem initial_after (cs : List Command) : initial.after cs = ofSegments (Path.resolve cs) :=
  after_ofSegments [] cs

/-- The implied control point is told by the segments. -/
theorem smoothControl_ofSegments (ss : List Segment) (family : CurveFamily) :
    (ofSegments ss).smoothControl family = impliedControl family ss := by
  unfold smoothControl previousControl? impliedControl ofSegments currentPoint
  simp only
  -- the control point which the cursor keeps is one of the last segment
  cases ss.getLast? with
  | none => rfl
  | some s =>
    cases s with
    | quad control target => cases family <;> rfl
    | cubic first second target => cases family <;> rfl
    | move | line | arc | close => rfl

/-! ## §3. Rows of commands. -/

theorem resolveAll_append (c : Cursor) (before rest : List Command) :
    c.resolveAll (before ++ rest) = c.resolveAll before ++ (c.after before).resolveAll rest := by
  induction before generalizing c with
  | nil => rfl
  | cons cmd before ih => exact congrArg (_ :: ·) (ih (c.step cmd).2)

/-- The explicit form of a command draws the same segment. -/
theorem resolve_explicit (c : Cursor) (cmd : Command) :
    c.resolve (c.resolve cmd).explicit = c.resolve cmd := by
  cases cmd <;> rfl

/-- **Explicit forms draw the same segments**: the state after a command depends
    on its segment alone, so both rows are drawn from the same states. -/
theorem resolveAll_explicit (c : Cursor) (cs : List Command) :
    c.resolveAll ((c.resolveAll cs).map Segment.explicit) = c.resolveAll cs := by
  induction cs generalizing c with
  | nil => rfl
  | cons cmd cs ih =>
    show c.resolve (c.resolve cmd).explicit ::
        (c.advance (c.resolve (c.resolve cmd).explicit)).resolveAll
          (((c.advance (c.resolve cmd)).resolveAll cs).map Segment.explicit) =
      c.resolve cmd :: (c.advance (c.resolve cmd)).resolveAll cs
    rw [resolve_explicit, ih]

end Cursor

/-! ## §4. Paths. -/

namespace Path

/-- The segment of a command stands after those of the commands before it. -/
theorem resolve_append_cons (before : List Command) (cmd : Command) (rest : List Command) :
    resolve (before ++ cmd :: rest) =
      resolve before ++ (Cursor.initial.after before).resolve cmd ::
        (Cursor.initial.after (before ++ [cmd])).resolveAll rest := by
  unfold resolve
  rw [Cursor.resolveAll_append, Cursor.after_concat]
  rfl

/-- **What shorthands stand for.**  Commands draw the same segments as the explicit
    commands of these segments do.  After each command the cursor stands where
    its segment ends.  A close goes to the destination of the latest move before
    it; a smooth curve has the reflected control point of the segment before it,
    if that is a curve of the same family, and the current point otherwise. -/
theorem resolve_shorthand :
    (∀ cs : List Command, resolve ((resolve cs).map Segment.explicit) = resolve cs) ∧
    ∀ (before : List Command) (cmd : Command) (rest : List Command), ∃ s ss,
      resolve (before ++ cmd :: rest) = resolve before ++ s :: ss ∧
      (Cursor.initial.after before).position = currentPoint (resolve before) ∧
      (Cursor.initial.after (before ++ [cmd])).position = s.destination ∧
      (∀ p, s = .close p → p = latestMove (resolve before)) ∧
      (∀ f second target, cmd = .smoothCubicTo f second target →
        s = .cubic (impliedControl .cubic (resolve before)) ((Cursor.initial.after before).point f second)
          ((Cursor.initial.after before).point f target)) ∧
      (∀ f target, cmd = .smoothQuadTo f target →
        s = .quad (impliedControl .quad (resolve before)) ((Cursor.initial.after before).point f target)) := by
  refine ⟨Cursor.resolveAll_explicit .initial, fun before cmd rest => ?_⟩
  have hcursor := Cursor.initial_after before
  have hend := congrArg Cursor.position (Cursor.after_concat .initial before cmd)
  refine ⟨_, _, resolve_append_cons before cmd rest, by rw [hcursor]; rfl, hend, ?_, ?_, ?_⟩
  · intro p hp
    rw [hcursor] at hp
    cases cmd <;> cases hp
    rfl
  · rintro f second target rfl
    rw [← Cursor.smoothControl_ofSegments, ← hcursor]
    rfl
  · rintro f target rfl
    rw [← Cursor.smoothControl_ofSegments, ← hcursor]
    rfl

/-- A cubic, and a smooth one which reflects its second control point. -/
def smoothCommands : List Command :=
  [.moveTo .absolute ⟨0.0, 0.0⟩, .cubicTo .absolute ⟨0.0, 1.0⟩ ⟨2.0, 3.0⟩ ⟨4.0, 4.0⟩]

theorem resolve_shorthand_smoothCommands :
    resolve ((resolve smoothCommands).map Segment.explicit) = resolve smoothCommands ∧
    ∃ q p ss, resolve (smoothCommands ++ [.smoothCubicTo .relative ⟨4.0, 2.0⟩ ⟨4.0, 4.0⟩, .close]) =
      resolve smoothCommands ++ .cubic ⟨6.0, 5.0⟩ q p :: ss := by
  refine ⟨resolve_shorthand.1 smoothCommands, ?_⟩
  obtain ⟨s, ss, hresolve, -, -, -, hcubic, -⟩ := resolve_shorthand.2 smoothCommands
    (.smoothCubicTo .relative ⟨4.0, 2.0⟩ ⟨4.0, 4.0⟩) [.close]
  obtain rfl := hcubic _ _ _ rfl
  have hreflected : impliedControl .cubic (resolve smoothCommands) = ⟨6.0, 5.0⟩ :=
    congr (congrArg Point.mk (by decide +kernel : (2.0 * 4.0 - 2.0 : Scalar) = 6.0))
      (by decide +kernel : (2.0 * 4.0 - 3.0 : Scalar) = 5.0)
  rw [hreflected] at hresolve
  exact ⟨_, _, ss, hresolve⟩

end Path

end VectorIcon

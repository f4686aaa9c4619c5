/-
  VectorIcon.Proofs.CommandLine.Arguments
  ────────────────────────────────
  **WHAT ARGUMENTS SAY, BY GROUPS.**

  Arguments fall into groups: a flag with its value, an operand, a call for help.
  Only a flag at the very end may be left without a value (`grouped`).  Arguments are
  taken in group by group, and what groups come to is told by the values of each flag
  and by the operands alone:

      every size and every color is well formed, also one which does not count,
      there is no call for help and no third operand,
      and of the values of a flag the last one counts.

  Main results:
    * `grouped_arguments`, `grouped_writtenOut` — the groups are the arguments,
    * `Settings.readAll_eq` — arguments are taken in group by group,
    * `Request.ofArguments_iff` — what arguments ask for,
    * `Reordering.ofArguments` — the order of the groups does not count.
-/
import Mathlib.Data.List.Induction
import VectorIcon.CommandLine.Arguments
import VectorIcon.Proofs.Lists

namespace VectorIcon

namespace CommandLine

/-! ## §1. Groups. -/

/-- A part of the arguments which is taken in at once. -/
inductive Group where
  | help
  | flag (flag : Flag) (value : String)
  | operand (text : String)
deriving DecidableEq

namespace Group

/-- The arguments of a group. -/
def arguments : Group → List String
  | .help => ["-h"]
  | .flag f value => [f.text, value]
  | .operand text => [text]

/-- The value of a group with a flag. -/
def value? (flag : Flag) : Group → Option String
  | .flag other value => if other = flag then some value else none
  | .help => none
  | .operand _ => none

/-- The text of an operand. -/
def operand? : Group → Option String
  | .operand text => some text
  | .help => none
  | .flag _ _ => none

/-- The values of a flag, in their order. -/
def values (flag : Flag) (gs : List Group) : List String := gs.filterMap (value? flag)

/-- The operands, in their order. -/
def operands (gs : List Group) : List String := gs.filterMap operand?

end Group

/-- Arguments as groups, with the flag at the end which has no value. -/
structure Grouping where
  groups : List Group
  unfinished : Option Flag

namespace Grouping

/-- One group more at the front. -/
def cons (g : Group) (x : Grouping) : Grouping := ⟨g :: x.groups, x.unfinished⟩

/-- The arguments which are grouped. -/
def arguments (x : Grouping) : List String :=
  x.groups.flatMap Group.arguments ++ x.unfinished.toList.map Flag.text

theorem arguments_cons (g : Group) (x : Grouping) :
    (cons g x).arguments = g.arguments ++ x.arguments := List.append_assoc ..

end Grouping

/-- The groups of arguments. -/
def grouped : List String → Grouping
  | [] => ⟨[], none⟩
  | [last] =>
    match Argument.ofText last with
    | .help => ⟨[.help], none⟩
    | .flag flag => ⟨[], some flag⟩
    | .operand text => ⟨[.operand text], none⟩
  | first :: second :: rest =>
    match Argument.ofText first with
    | .help => (grouped (second :: rest)).cons .help
    | .flag flag => (grouped rest).cons (.flag flag second)
    | .operand text => (grouped (second :: rest)).cons (.operand text)

theorem ofText_help {text : String} (h : Argument.ofText text = .help) : text = "-h" := by
  unfold Argument.ofText at h
  grind

theorem ofText_flag {text : String} {flag : Flag} (h : Argument.ofText text = .flag flag) :
    text = flag.text := by
  unfold Argument.ofText at h
  grind [Flag.text]

theorem ofText_operand {text other : String} (h : Argument.ofText text = .operand other) :
    text = other := by
  unfold Argument.ofText at h
  grind

/-- **Nothing of the arguments is lost in the groups.** -/
theorem grouped_arguments (arguments : List String) : (grouped arguments).arguments = arguments := by
  fun_induction grouped arguments with
  | case1 => rfl
  | case2 last h =>
    rw [ofText_help h]
    rfl
  | case3 last flag h =>
    rw [ofText_flag h]
    rfl
  | case4 last text h =>
    rw [ofText_operand h]
    rfl
  | case5 first second rest h ih =>
    rw [Grouping.arguments_cons, ih, ofText_help h]
    rfl
  | case6 first second rest flag h ih =>
    rw [Grouping.arguments_cons, ih, ofText_flag h]
    rfl
  | case7 first second rest text h ih =>
    rw [Grouping.arguments_cons, ih, ofText_operand h]
    rfl

/-- What is taken for an operand is one. -/
def Group.Proper : Group → Prop
  | .help => True
  | .flag _ _ => True
  | .operand text => Argument.ofText text = .operand text

theorem ofText_text (flag : Flag) : Argument.ofText flag.text = .flag flag := by
  cases flag <;> rfl

theorem grouped_append {g : Group} (h : g.Proper) (rest : List String) :
    grouped (g.arguments ++ rest) = (grouped rest).cons g := by
  cases g with
  | help => cases rest <;> rfl
  | flag f value =>
    show grouped (f.text :: value :: rest) = _
    rw [grouped, ofText_text]
  | operand text =>
    have hoperand : Argument.ofText text = .operand text := h
    cases rest with
    | nil =>
      show grouped [text] = _
      unfold grouped
      rw [hoperand]
      rfl
    | cons second rest =>
      show grouped (text :: second :: rest) = _
      rw [grouped, hoperand]

/-- **Groups which are written out are found again.** -/
theorem grouped_writtenOut {gs : List Group} (h : ∀ g ∈ gs, g.Proper) (unfinished : Option Flag) :
    grouped (Grouping.arguments ⟨gs, unfinished⟩) = ⟨gs, unfinished⟩ := by
  induction gs with
  | nil =>
    cases unfinished with
    | none => rfl
    | some flag =>
      show grouped [flag.text] = _
      rw [grouped, ofText_text]
  | cons g gs ih =>
    obtain ⟨hg, hgs⟩ := List.forall_mem_cons.1 h
    show grouped (Grouping.cons g ⟨gs, unfinished⟩).arguments = _
    rw [Grouping.arguments_cons, grouped_append hg, ih hgs]
    rfl

theorem grouped_proper (arguments : List String) : ∀ g ∈ (grouped arguments).groups, g.Proper := by
  have hoperand {text other : String} (h : Argument.ofText text = .operand other) :
      (Group.operand other).Proper := by
    rwa [ofText_operand h] at h
  fun_induction grouped arguments with
  | case1 => exact nofun
  | case2 last h => exact List.forall_mem_singleton.2 trivial
  | case3 last flag h => exact nofun
  | case4 last text h => exact List.forall_mem_singleton.2 (hoperand h)
  | case5 first second rest h ih => exact List.forall_mem_cons.2 ⟨trivial, ih⟩
  | case6 first second rest flag h ih => exact List.forall_mem_cons.2 ⟨trivial, ih⟩
  | case7 first second rest text h ih => exact List.forall_mem_cons.2 ⟨hoperand h, ih⟩

/-! ## §2. Taking in groups. -/

namespace Settings

/-- Take in a group. -/
def take (s : Settings) : Group → Except ArgumentFault Settings
  | .help => .error .usage
  | .flag flag value => s.setFlag flag value
  | .operand text => s.addOperand text

/-- A flag without a value is refused. -/
def finish (s : Settings) : Option Flag → Except ArgumentFault Settings
  | some flag => .error (.missingValue flag)
  | none => .ok s

/-- **Arguments are taken in by groups.** -/
theorem readAll_eq (s : Settings) (arguments : List String) :
    s.readAll arguments =
      (grouped arguments).groups.foldlM take s >>= fun s => s.finish (grouped arguments).unfinished := by
  fun_induction grouped arguments generalizing s with
  | case1 => rfl
  | case2 last h =>
    unfold readAll
    rw [h]
    rfl
  | case3 last flag h =>
    unfold readAll
    rw [h]
    rfl
  | case4 last text h =>
    unfold readAll
    rw [h]
    show _ = ((s.addOperand text >>= pure) >>= pure)
    rw [bind_pure, bind_pure]
  | case5 first second rest h ih =>
    unfold readAll
    rw [h]
    rfl
  | case6 first second rest flag h ih =>
    unfold readAll
    rw [h]
    show (s.setFlag flag second >>= fun s => s.readAll rest) = _
    rw [Grouping.cons, List.foldlM_cons, bind_assoc]
    exact congrArg (s.setFlag flag second >>= ·) (funext fun s => ih s)
  | case7 first second rest text h ih =>
    unfold readAll
    rw [h]
    show (s.addOperand text >>= fun s => s.readAll (second :: rest)) = _
    rw [Grouping.cons, List.foldlM_cons, bind_assoc]
    exact congrArg (s.addOperand text >>= ·) (funext fun s => ih s)

end Settings

/-! ## §3. What groups come to. -/

theorem size_eq_ok {text : String} {x : Scalar} :
    size text = .ok x ↔ scalar? text.toList = some x ∧ ¬x < epsilon := by
  unfold size
  cases scalar? text.toList with
  | none => exact iff_of_false nofun fun h => nomatch h.1
  | some y =>
    show (if y < epsilon then Except.error ArgumentFault.smallSize else .ok y) = _ ↔ _
    rw [Option.some_inj]
    split
    · next hsmall => exact iff_of_false nofun fun h => h.2 (h.1 ▸ hsmall)
    · next hlarge =>
      constructor
      · intro h
        cases h
        exact ⟨rfl, hlarge⟩
      · rintro ⟨rfl, -⟩
        rfl

/-- What is acceptable as a group by itself. -/
def Group.WellFormed : Group → Prop
  | .help => False
  | .flag .size text => ∃ x, CommandLine.size text = .ok x
  | .flag .foreground text => ∃ c, color text = .ok c
  | .flag .options _ => True
  | .operand _ => True

/-- All groups are well formed, and there are not too many operands. -/
structure Accepted (gs : List Group) : Prop where
  wellFormed : ∀ g ∈ gs, g.WellFormed
  operands : (Group.operands gs).length ≤ 2

/-- The settings of groups: of the values of a flag the last one counts. -/
def Settings.ofGroups (gs : List Group) : Settings where
  optionsPath := (Group.values .options gs).getLast?
  size := (Group.values .size gs).getLast?.bind fun text => (CommandLine.size text).toOption
  foreground := (Group.values .foreground gs).getLast?.bind fun text => (color text).toOption
  operands := Group.operands gs

section

variable {gs : List Group} {g : Group} {s : Settings}

theorem accepted_snoc : Accepted (gs ++ [g]) ↔
    Accepted gs ∧ g.WellFormed ∧ (Group.operands (gs ++ [g])).length ≤ 2 := by
  constructor
  · rintro ⟨hall, hcount⟩
    rw [List.forall_mem_append, List.forall_mem_singleton] at hall
    refine ⟨⟨hall.1, ?_⟩, hall.2, hcount⟩
    unfold Group.operands at hcount ⊢
    rw [List.filterMap_append, List.length_append] at hcount
    omega
  · rintro ⟨⟨hall, -⟩, hg, hcount⟩
    exact ⟨List.forall_mem_append.2 ⟨hall, List.forall_mem_singleton.2 hg⟩, hcount⟩

/-- A flag is taken in exactly if its value can be read. -/
theorem set_ok_iff {α : Type} (x : Except ArgumentFault α) (set : Option α → Settings) :
    (do return set (some (← x))) = .ok s ↔ (∃ a, x = .ok a) ∧ s = set x.toOption := by
  cases x with
  | error e => exact iff_of_false nofun fun h => nomatch h.1
  | ok a =>
    show Except.ok (set (some a)) = .ok s ↔ _
    rw [Except.ok.injEq]
    exact ⟨fun h => ⟨⟨a, rfl⟩, h.symm⟩, fun h => h.2.symm⟩

/-- One group more is taken in exactly if it is acceptable too. -/
theorem take_ofGroups (h : Accepted gs) : (Settings.ofGroups gs).take g = .ok s ↔
    (g.WellFormed ∧ (Group.operands (gs ++ [g])).length ≤ 2) ∧ s = Settings.ofGroups (gs ++ [g]) := by
  have hcount := h.operands
  unfold Settings.ofGroups
  unfold Group.values Group.operands at *
  simp only [List.filterMap_append]
  cases g with
  | help => exact iff_of_false nofun fun h => h.1.1
  | operand text =>
    simp only [List.filterMap_cons, List.filterMap_nil, Group.operand?, Group.value?,
      List.append_nil, List.length_append, List.length_singleton, Settings.take,
      Settings.addOperand, Group.WellFormed, true_and]
    split
    · next hroom =>
      rw [Except.ok.injEq]
      exact ⟨fun h => ⟨by omega, h.symm⟩, fun h => h.2.symm⟩
    · next hfull => exact iff_of_false nofun fun h => hfull (by omega)
  | flag f text =>
    simp only [List.filterMap_cons, List.filterMap_nil, Group.operand?, List.append_nil, hcount,
      and_true]
    cases f with
    | size =>
      simp only [Group.value?, reduceCtorEq, if_true, if_false, List.append_nil, List.getLast?_concat, Option.bind_some]
      exact set_ok_iff (CommandLine.size text) fun a => ⟨_, a, _, _⟩
    | foreground =>
      simp only [Group.value?, reduceCtorEq, if_true, if_false, List.append_nil, List.getLast?_concat, Option.bind_some]
      exact set_ok_iff (color text) fun a => ⟨_, _, a, _⟩
    | options =>
      simp only [Group.value?, reduceCtorEq, if_true, if_false, List.append_nil, List.getLast?_concat, Settings.take,
        Settings.setFlag, Group.WellFormed, true_and]
      rw [Except.ok.injEq]
      exact eq_comm

/-- **Groups are taken in exactly if all of them are accepted.** -/
theorem foldlM_take_iff :
    gs.foldlM Settings.take .empty = .ok s ↔ Accepted gs ∧ s = Settings.ofGroups gs := by
  induction gs using List.reverseRecOn generalizing s with
  | nil =>
    constructor
    · intro h
      cases h
      exact ⟨⟨nofun, Nat.zero_le 2⟩, rfl⟩
    · rintro ⟨-, rfl⟩
      rfl
  | append_singleton gs g ih =>
    have hsingle (s' : Settings) : [g].foldlM Settings.take s' = s'.take g := bind_pure _
    rw [accepted_snoc, and_assoc, List.foldlM_append, Except.bind_eq_ok]
    simp only [hsingle, ih]
    constructor
    · rintro ⟨s', ⟨haccepted, rfl⟩, h⟩
      exact ⟨haccepted, (take_ofGroups haccepted).1 h⟩
    · rintro ⟨haccepted, h⟩
      exact ⟨_, ⟨haccepted, rfl⟩, (take_ofGroups haccepted).2 h⟩

end

theorem finish_eq_ok {s s' : Settings} {unfinished : Option Flag} :
    s.finish unfinished = .ok s' ↔ unfinished = none ∧ s' = s := by
  cases unfinished with
  | some flag => exact iff_of_false nofun nofun
  | none =>
    rw [Settings.finish, Except.ok.injEq, eq_comm]
    exact (and_iff_right rfl).symm

/-- **What arguments ask for**, if they ask for something: the groups are complete and
    accepted, and there are two operands. -/
theorem Request.ofArguments_iff {arguments : List String} {r : Request} :
    Request.ofArguments arguments = .ok r ↔
      (grouped arguments).unfinished = none ∧ Accepted (grouped arguments).groups ∧
        ∃ document icon, Group.operands (grouped arguments).groups = [document, icon] ∧
          r = ⟨.ofOperand document, .ofOperand icon, .ofGroups (grouped arguments).groups⟩ := by
  have hread (s : Settings) : Settings.empty.readAll arguments = .ok s ↔
      (grouped arguments).unfinished = none ∧ Accepted (grouped arguments).groups ∧
        s = .ofGroups (grouped arguments).groups := by
    rw [Settings.readAll_eq, Except.bind_eq_ok]
    simp only [foldlM_take_iff, finish_eq_ok]
    constructor
    · rintro ⟨_, ⟨haccepted, rfl⟩, hunfinished, rfl⟩
      exact ⟨hunfinished, haccepted, rfl⟩
    · rintro ⟨hunfinished, haccepted, rfl⟩
      exact ⟨_, ⟨haccepted, rfl⟩, hunfinished, rfl⟩
  unfold Request.ofArguments
  rw [Except.bind_eq_ok]
  simp only [hread]
  constructor
  · rintro ⟨s, ⟨hunfinished, haccepted, rfl⟩, h⟩
    split at h
    · next document icon hoperands =>
      cases h
      exact ⟨hunfinished, haccepted, document, icon, hoperands, rfl⟩
    · cases h
  · rintro ⟨hunfinished, haccepted, document, icon, hoperands, rfl⟩
    refine ⟨_, ⟨hunfinished, haccepted, rfl⟩, ?_⟩
    rw [show (Settings.ofGroups (grouped arguments).groups).operands = [document, icon] from hoperands]
    rfl

/-! ## §4. The order of groups. -/

/-- The same groups in another order, in which the operands and the values of each flag
    follow each other as before. -/
structure Reordering (gs gs' : List Group) : Prop where
  perm : gs.Perm gs'
  values : ∀ flag, Group.values flag gs' = Group.values flag gs
  operands : Group.operands gs' = Group.operands gs

section

variable {gs gs' : List Group}

theorem Reordering.ofGroups (h : Reordering gs gs') : Settings.ofGroups gs' = .ofGroups gs := by
  unfold Settings.ofGroups
  rw [h.values, h.values, h.values, h.operands]

theorem Reordering.accepted_iff (h : Reordering gs gs') : Accepted gs' ↔ Accepted gs := by
  constructor
  · rintro ⟨hall, hcount⟩
    exact ⟨fun g hg => hall g (h.perm.mem_iff.1 hg), h.operands ▸ hcount⟩
  · rintro ⟨hall, hcount⟩
    exact ⟨fun g hg => hall g (h.perm.mem_iff.2 hg), h.operands.symm ▸ hcount⟩

/-- **The order of groups does not count.** -/
theorem Reordering.ofArguments {arguments : List String}
    (h : Reordering (grouped arguments).groups gs') (r : Request) :
    Request.ofArguments (Grouping.arguments ⟨gs', (grouped arguments).unfinished⟩) = .ok r ↔
      Request.ofArguments arguments = .ok r := by
  have hproper : ∀ g ∈ gs', g.Proper := fun g hg =>
    grouped_proper arguments g (h.perm.mem_iff.2 hg)
  rw [Request.ofArguments_iff, Request.ofArguments_iff, grouped_writtenOut hproper,
    h.accepted_iff, h.operands, h.ofGroups]

end

end CommandLine

end VectorIcon

/-
  VectorIcon.Proofs.CommandLine.Options
  ────────────────────────────────
  **THE OPTIONS WHICH ARGUMENTS ASK FOR.**

  The options of a run come from three places, each of which goes before the next:
  the last value of a flag, the last options file, the defaults (`Configured`).
  Where the flags stand among the arguments does not count.

  Main results:
    * `options_ofGroups` — the options of accepted groups are the configured ones,
    * `Job.ofArguments_iff` — the conversion which arguments ask for.
-/
import VectorIcon.CommandLine.Program
import VectorIcon.Proofs.CommandLine.Arguments

namespace VectorIcon

namespace CommandLine

/-! ## §1. The last value of a flag. -/

section

variable {ε α : Type} {read : String → Except ε α} {values : List String} {fallback x : α}

/-- What a flag chooses: what its last value reads as, or a fallback if it is not there. -/
def Chosen (read : String → Except ε α) (values : List String) (fallback x : α) : Prop :=
  match values.getLast? with
  | none => x = fallback
  | some text => read text = .ok x

theorem chosen_iff (h : ∀ text ∈ values, ∃ a, read text = .ok a) :
    Chosen read values fallback x ↔
      x = (values.getLast?.bind fun text => (read text).toOption).getD fallback := by
  unfold Chosen
  cases hlast : values.getLast? with
  | none => exact Iff.rfl
  | some text =>
    obtain ⟨a, ha⟩ := h text (List.mem_of_getLast? hlast)
    show read text = .ok x ↔ x = (read text).toOption.getD fallback
    rw [ha, Except.ok.injEq]
    exact eq_comm

end

/-! ## §2. The options. -/

/-- The options which groups ask for, and those before size and color are set. -/
structure Configured (gs : List Group) (sources : Sources) (base o : ConversionOptions) : Prop where
  file : Chosen (fun path => sources.file path >>= Settings.optionsOfFile)
    (Group.values .options gs) .default base
  size : Chosen CommandLine.size (Group.values .size gs) base.outputSize o.outputSize
  foreground : Chosen color (Group.values .foreground gs) base.foreground o.foreground
  exclusions : o.exclusions = base.exclusions

section

variable {gs : List Group} {sources : Sources} {base o : ConversionOptions}

theorem mem_of_mem_values {flag : Flag} {text : String} (h : text ∈ Group.values flag gs) :
    Group.flag flag text ∈ gs := by
  obtain ⟨g, hg, hvalue⟩ := List.mem_filterMap.1 h
  cases g with
  | flag other value =>
    obtain ⟨rfl, rfl⟩ : other = flag ∧ value = text := by simpa [Group.value?] using hvalue
    exact hg
  | help => cases hvalue
  | operand => cases hvalue

theorem baseOptions_ofGroups : (Settings.ofGroups gs).baseOptions sources = .ok base ↔
    Chosen (fun path => sources.file path >>= Settings.optionsOfFile)
      (Group.values .options gs) .default base := by
  unfold Settings.baseOptions Chosen Settings.ofGroups
  cases (Group.values .options gs).getLast? with
  | none =>
    show Except.ok _ = .ok base ↔ _
    rw [Except.ok.injEq]
    exact eq_comm
  | some path => exact Iff.rfl

theorem override_ofGroups (h : Accepted gs) :
    o = (Settings.ofGroups gs).override base ↔
      Chosen CommandLine.size (Group.values .size gs) base.outputSize o.outputSize ∧
      Chosen color (Group.values .foreground gs) base.foreground o.foreground ∧
      o.exclusions = base.exclusions := by
  have hsizes : ∀ text ∈ Group.values .size gs, ∃ x, CommandLine.size text = .ok x :=
    fun text ht => h.wellFormed (.flag .size text) (mem_of_mem_values ht)
  have hcolors : ∀ text ∈ Group.values .foreground gs, ∃ c, color text = .ok c :=
    fun text ht => h.wellFormed (.flag .foreground text) (mem_of_mem_values ht)
  obtain ⟨size, exclusions, foreground⟩ := o
  rw [chosen_iff hsizes, chosen_iff hcolors, Settings.override, ConversionOptions.mk.injEq]
  exact and_congr_right fun _ => and_comm

/-- **The options of accepted groups.** -/
theorem options_ofGroups (h : Accepted gs) :
    (Settings.ofGroups gs).options sources = .ok o ↔ ∃ base, Configured gs sources base o := by
  unfold Settings.options
  rw [Except.bind_eq_ok]
  constructor
  · rintro ⟨base, hbase, ho⟩
    obtain ⟨hsize, hforeground, hexclusions⟩ := (override_ofGroups h).1 (Except.ok.inj ho).symm
    exact ⟨base, baseOptions_ofGroups.1 hbase, hsize, hforeground, hexclusions⟩
  · rintro ⟨base, hbase, hsize, hforeground, hexclusions⟩
    refine ⟨base, baseOptions_ofGroups.2 hbase, congrArg Except.ok ?_⟩
    exact ((override_ofGroups h).2 ⟨hsize, hforeground, hexclusions⟩).symm

end

/-! ## §3. The conversion. -/

/-- The job of a request. -/
def Request.job (r : Request) (sources : Sources) : Except Fault Job := do
  let options ← r.settings.options sources
  let document ← sources.read r.document
  return ⟨options, document, r.icon⟩

/-- The job of arguments. -/
def Job.ofArguments (arguments : List String) (sources : Sources) : Except Fault Job := do
  let request ← (Request.ofArguments arguments).mapError .arguments
  request.job sources

section

variable {arguments : List String} {sources : Sources} {job : Job}

/-- What a job writes is what its request writes. -/
theorem Request.output_eq (r : Request) (sources : Sources) :
    r.output sources = r.job sources >>= Job.output := by
  unfold Request.output Request.job
  cases r.settings.options sources with
  | error fault => rfl
  | ok options => cases sources.read r.document <;> rfl

theorem output_eq (arguments : List String) (sources : Sources) :
    output arguments sources = Job.ofArguments arguments sources >>= Job.output := by
  unfold output Job.ofArguments
  cases Request.ofArguments arguments with
  | error fault => rfl
  | ok request => exact request.output_eq sources

theorem Job.output_eq_ok {o : Output} : job.output = .ok o ↔
    job.options.convert job.document = .ok o.bytes ∧ o.place = job.icon := by
  obtain ⟨place, bytes⟩ := o
  unfold Job.output
  cases job.options.convert job.document with
  | error error => exact iff_of_false nofun fun h => nomatch h.1
  | ok icon =>
    show Except.ok _ = Except.ok _ ↔ Except.ok _ = Except.ok _ ∧ _
    rw [Except.ok.injEq, Except.ok.injEq, Output.mk.injEq]
    exact ⟨fun h => ⟨h.2, h.1.symm⟩, fun h => ⟨h.2.symm, h.1⟩⟩

/-- **The conversion which arguments ask for**, if they ask for one and all files are there. -/
theorem Job.ofArguments_iff : Job.ofArguments arguments sources = .ok job ↔
    (grouped arguments).unfinished = none ∧ Accepted (grouped arguments).groups ∧
      ∃ document target base,
        Group.operands (grouped arguments).groups = [document, target] ∧
        Configured (grouped arguments).groups sources base job.options ∧
        sources.read (.ofOperand document) = .ok job.document ∧
        job.icon = .ofOperand target := by
  unfold Job.ofArguments Request.job
  simp only [Except.bind_eq_ok, Except.mapError_eq_ok, Request.ofArguments_iff]
  constructor
  · rintro ⟨_, ⟨hunfinished, haccepted, document, target, hoperands, rfl⟩, o, ho, bytes, hbytes, h⟩
    cases h
    obtain ⟨base, hbase⟩ := (options_ofGroups haccepted).1 ho
    exact ⟨hunfinished, haccepted, document, target, base, hoperands, hbase, hbytes, rfl⟩
  · rintro ⟨hunfinished, haccepted, document, target, base, hoperands, hbase, hbytes, hicon⟩
    refine ⟨_, ⟨hunfinished, haccepted, document, target, hoperands, rfl⟩, job.options,
      (options_ofGroups haccepted).2 ⟨base, hbase⟩, job.document, hbytes, ?_⟩
    rw [← hicon]
    rfl

end

end CommandLine

end VectorIcon

/-
  VectorIcon.Proofs.CommandLine.Size
  ────────────────────────────────
  **THE SIZE WITH WHICH A CONVERSION BEGINS.**

  A size of the arguments is refused if it is less than `epsilon`.  This keeps out
  neither infinity nor what is not a number, and the size of an options file is not
  looked at at all: it is used as it is, unless the arguments have one
  (`gather_size`).  So a conversion can begin with a size which no icon can have
  (`gather_emptySize`).
-/
import VectorIcon.Proofs.CommandLine.Effects

namespace VectorIcon

namespace CommandLine

/-- A size which an icon can have. -/
def Sensible (x : Scalar) : Prop := x.isFinite = true ∧ ¬x < epsilon

instance (x : Scalar) : Decidable (Sensible x) := inferInstanceAs (Decidable (_ ∧ _))

section

variable {ν : Type} {arguments : List String} {w : World ν} {job : Job}

/-- A conversion begins exactly if the arguments ask for one and all files are there. -/
theorem gather_iff : (∃ w', (gather arguments).start w = (.ok job, w')) ↔
    Job.ofArguments arguments w.sources = .ok job := by
  obtain ⟨w₁, -, hstart⟩ := gather_gives arguments w
  rw [hstart]
  cases Job.ofArguments arguments w.sources with
  | error fault =>
    refine iff_of_false ?_ nofun
    rintro ⟨w', h⟩
    cases h
  | ok job' =>
    constructor
    · rintro ⟨w', h⟩
      cases h
      rfl
    · intro h
      cases h
      exact ⟨w₁, rfl⟩

/-- **The size with which a conversion begins**: that of the last `-s`, which is not less
    than `epsilon`, or else that of the options file, whatever it is, or else 48.  So it is
    sensible exactly if the last `-s` is finite, and without one the options file is
    sensible by itself. -/
theorem gather_size (arguments : List String) (w w' : World ν) (job : Job)
    (h : (gather arguments).start w = (.ok job, w')) :
    (∀ text, (Group.values .size (grouped arguments).groups).getLast? = some text →
      scalar? text.toList = some job.options.outputSize ∧ ¬job.options.outputSize < epsilon ∧
        (Sensible job.options.outputSize ↔ job.options.outputSize.isFinite = true)) ∧
    (∀ path, Group.values .size (grouped arguments).groups = [] →
      (Group.values .options (grouped arguments).groups).getLast? = some path →
      ∃ bytes base, w.sources.file path = .ok bytes ∧ Settings.optionsOfFile bytes = .ok base ∧
        job.options.outputSize = base.outputSize ∧
        (Sensible job.options.outputSize ↔ Sensible base.outputSize)) ∧
    (Group.values .size (grouped arguments).groups = [] →
      Group.values .options (grouped arguments).groups = [] →
      job.options.outputSize = 48.0 ∧ Sensible job.options.outputSize) := by
  obtain ⟨-, -, _, _, base, -, hconfigured, -, -⟩ := Job.ofArguments_iff.1 (gather_iff.1 ⟨w', h⟩)
  obtain ⟨hfile, hsize, -, -⟩ := hconfigured
  unfold Chosen at hfile hsize
  refine ⟨?argument, ?file, ?neither⟩
  case argument =>
    intro text htext
    rw [htext] at hsize
    obtain ⟨hscalar, hlarge⟩ := size_eq_ok.1 hsize
    exact ⟨hscalar, hlarge, and_iff_left hlarge⟩
  case file =>
    intro path hnone hpath
    rw [hnone] at hsize
    rw [hpath] at hfile
    obtain ⟨bytes, hbytes, hbase⟩ := Except.bind_eq_ok.1 hfile
    have hsame : job.options.outputSize = base.outputSize := hsize
    exact ⟨bytes, base, hbytes, hbase, hsame, by rw [hsame]⟩
  case neither =>
    intro hnone hdefault
    rw [hnone] at hsize
    rw [hdefault] at hfile
    have h48 : job.options.outputSize = 48.0 := hsize.trans (by rw [hfile]; rfl)
    exact ⟨h48, h48 ▸ by decide +kernel⟩

end

theorem gather_size_resizingArguments :
    ∃ job w', (gather resizingArguments).start (.ofDirectory [] iconDirectory) = (.ok job, w') ∧
      job.options.outputSize = 32.0 ∧ Sensible job.options.outputSize := by
  have hsome : ((gather resizingArguments).start
      (.ofDirectory [] iconDirectory)).1.toOption.isSome = true := by
    decide +kernel
  cases hstart : (gather resizingArguments).start (.ofDirectory [] iconDirectory) with
  | mk e w' =>
    rw [hstart] at hsome
    obtain ⟨job, rfl⟩ := Except.exists_ok hsome
    obtain ⟨hscalar, -, hsensible⟩ := (gather_size _ _ w' job hstart).1 "32" (by decide +kernel)
    have h32 : job.options.outputSize = 32.0 :=
      Option.some.inj (hscalar.symm.trans (by decide +kernel))
    exact ⟨job, w', rfl, h32, hsensible.2 (h32 ▸ by decide +kernel)⟩

/-- Infinity is not less than anything. -/
example : (size "inf").toOption = some Scalar.infinity := by decide +kernel

/-- A directory with options which give the icon no size. -/
def emptySizeDirectory : Directory where
  files :=
    [("icon.svg", "<svg viewBox=\"0 0 24 24\"><path d=\"M2 2H9V9Z\"/></svg>".toUTF8.toList),
      ("options.json", "\x7b\"output_size\":0\x7d".toUTF8.toList)]

/-- **The guard can be passed by**: the size of an options file is not looked at. -/
theorem gather_emptySize :
    ¬ ∀ (arguments : List String) (w w' : World String) (job : Job),
      (gather arguments).start w = (.ok job, w') → Sensible job.options.outputSize := by
  intro hclaim
  have hempty : ((gather ["-c", "options.json", "icon.svg", "icon.ivg"]).start
      (.ofDirectory [] emptySizeDirectory)).1.toOption.any
        (fun job => !decide (Sensible job.options.outputSize)) = true := by
    decide +kernel
  cases hstart : (gather ["-c", "options.json", "icon.svg", "icon.ivg"]).start
      (.ofDirectory [] emptySizeDirectory) with
  | mk e w' =>
    rw [hstart] at hempty
    cases e with
    | error stop => cases hempty
    | ok job =>
      have hsensible := decide_eq_true (hclaim _ _ w' job hstart)
      change (!decide (Sensible job.options.outputSize)) = true at hempty
      rw [hsensible] at hempty
      cases hempty

end CommandLine

end VectorIcon

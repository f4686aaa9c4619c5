/-
  VectorIcon.Proofs.CommandLine.Effects
  ────────────────────────────────
  **WHAT THE PROGRAM LEAVES BEHIND.**

  The program first reads and then writes.  Reading is followed action by action: what
  an action gives is told by the sources of the world in which it starts, and it keeps
  all that is written (`Gives`).  Only the last thing which is read may be the standard
  input, so all actions find the same sources.  Writing leaves a part of the bytes
  where they are to go, and all of them if there is room (`save_start`).

  Main results:
    * `program_start` — the program comes to what `output` says,
    * `run_agrees` — in a directory it does what `run` says,
    * `program_effects` — what is left behind when it fails and when it succeeds.
-/
import VectorIcon.Proofs.CommandLine.Options

namespace VectorIcon

namespace CommandLine

/-! ## §1. One action after the other. -/

section

variable {ν α β : Type} {p : Program ν α} {q : α → Program ν β} {w w' : World ν}

theorem start_bind_ok {a : α} (h : p.start w = (.ok a, w')) : (p >>= q).start w = (q a).start w' := by
  show ExceptT.bindCont q (p.start w).1 (p.start w).2 = _
  rw [h]
  rfl

theorem start_bind_error {stop : Stop} (h : p.start w = (.error stop, w')) :
    (p >>= q).start w = (.error stop, w') := by
  show ExceptT.bindCont q (p.start w).1 (p.start w).2 = _
  rw [h]
  rfl

/-! ## §2. Reading. -/

/-- A program which gives what the sources say, or stops with their fault, and leaves a
    world which is related to that before. -/
def Gives (R : World ν → World ν → Prop) (p : Program ν α) (f : Sources → Except Fault α) : Prop :=
  ∀ w : World ν, ∃ w', R w w' ∧ p.start w = ((f w.sources).mapError .early, w')

/-- Nothing is written from the first world to the second. -/
structure World.Kept (w w' : World ν) : Prop where
  standardOutput : w'.standardOutput = w.standardOutput
  files : w'.files = w.files
  room : w'.room = w.room

theorem World.Kept.refl (w : World ν) : w.Kept w := ⟨rfl, rfl, rfl⟩

theorem World.Kept.fitting (h : w.Kept w') (bytes : List UInt8) :
    w'.fitting bytes = w.fitting bytes := by
  unfold World.fitting
  rw [h.room]

variable {R : World ν → World ν → Prop} {f : Sources → Except Fault α}

/-- What goes on after a program which changes nothing finds the sources as they were. -/
theorem Gives.bind (hrefl : ∀ w, R w w) {g : α → Sources → Except Fault β}
    (hp : Gives Eq p f) (hq : ∀ a, Gives R (q a) (g a)) :
    Gives R (p >>= q) fun s => f s >>= fun a => g a s := by
  intro w
  obtain ⟨w, rfl, hstart⟩ := hp w
  show ∃ w', _ ∧ _ = ((f w.sources >>= fun a => g a w.sources).mapError Stop.early, w')
  cases hf : f w.sources with
  | error fault =>
    rw [hf] at hstart
    exact ⟨w, hrefl w, start_bind_error hstart⟩
  | ok a =>
    rw [hf] at hstart
    obtain ⟨w', hkept, hrest⟩ := hq a w
    exact ⟨w', hkept, (start_bind_ok hstart).trans hrest⟩

theorem Gives.bind_orStop (h : Gives R p f) (g : α → Except Fault β) :
    Gives R (p >>= fun a => orStop (g a)) fun s => f s >>= g := by
  intro w
  obtain ⟨w', hkept, hstart⟩ := h w
  refine ⟨w', hkept, ?_⟩
  show _ = ((f w.sources >>= g).mapError Stop.early, w')
  cases hf : f w.sources with
  | error fault =>
    rw [hf] at hstart
    exact start_bind_error hstart
  | ok a =>
    rw [hf] at hstart
    rw [start_bind_ok hstart]
    show _ = ((g a).mapError Stop.early, w')
    cases g a <;> rfl

theorem orStop_gives (x : Except Fault α) : Gives Eq (orStop x : Program ν α) fun _ => x := by
  intro w
  cases x <;> exact ⟨w, rfl, rfl⟩

theorem readFile_gives (path : String) : Gives Eq (readFile path : Program ν _) (·.file path) :=
  fun w => orStop_gives (w.sources.file path) w

theorem readBaseOptions_gives (s : Settings) :
    Gives Eq (readBaseOptions s : Program ν _) s.baseOptions := by
  unfold readBaseOptions Settings.baseOptions
  cases s.optionsPath with
  | none => exact orStop_gives (.ok ConversionOptions.default)
  | some path => exact (readFile_gives path).bind_orStop _

theorem readOptions_gives (s : Settings) : Gives Eq (readOptions s : Program ν _) s.options :=
  (readBaseOptions_gives s).bind_orStop fun base => .ok (s.override base)

theorem readPlace_gives (place : Place) :
    Gives World.Kept (readPlace place : Program ν _) (·.read place) := by
  intro w
  cases place with
  | standard => exact ⟨{ w with standardInput := [] }, ⟨rfl, rfl, rfl⟩, rfl⟩
  | file path =>
    obtain ⟨w, rfl, hstart⟩ := readFile_gives path w
    exact ⟨w, .refl w, hstart⟩

/-- **Until the icon is to be written, nothing is.** -/
theorem gather_gives (arguments : List String) :
    Gives World.Kept (gather arguments : Program ν _) (Job.ofArguments arguments) :=
  (orStop_gives _).bind .refl fun request =>
    (readOptions_gives request.settings).bind .refl fun options =>
      (readPlace_gives request.document).bind_orStop fun document =>
        .ok (⟨options, document, request.icon⟩ : Job)

end

/-! ## §3. Writing. -/

section

variable {ν : Type}

theorem World.fitting_prefix (w : World ν) (bytes : List UInt8) : w.fitting bytes <+: bytes := by
  unfold World.fitting
  split
  · exact List.take_prefix ..
  · exact List.prefix_rfl

/-- What comes of writing bytes to a place: all of them are there, or there was no room. -/
def World.outcome (w : World ν) (place : Place) (bytes : List UInt8) : Except Stop Unit :=
  if (w.fitting bytes).length < bytes.length then .error (.late place) else .ok ()

theorem start_outcome (w w' : World ν) (place : Place) (bytes : List UInt8) :
    (if (w.fitting bytes).length < bytes.length then throw (.late place) else pure () :
      Program ν Unit).start w' = (w.outcome place bytes, w') := by
  unfold World.outcome
  split <;> rfl

theorem Files.locate_of_target {fs : Files ν} {path : String} {f : ν} (h : fs.target path = .ok f) :
    fs.locate path = some f := by
  unfold Files.target at h
  split at h
  · next g hg =>
    cases h
    exact (Option.filter_eq_some_iff.1 hg).1
  · cases h

variable [DecidableEq ν]

theorem Files.content_put (fs : Files ν) (f : ν) (bytes : List UInt8) :
    (fs.put f bytes).content f = some bytes := if_pos rfl

theorem Files.put_put (fs : Files ν) (f : ν) (bytes bytes' : List UInt8) :
    (fs.put f bytes).put f bytes' = fs.put f bytes' := by
  unfold Files.put
  congr 1
  funext g
  show (if g = f then some bytes' else if g = f then some bytes else fs.content g) = _
  split <;> rfl

/-- From the first world to the second, these bytes are written to a place and nothing else
    is: at the end of the standard output, or as all there is in a file. -/
def World.Written (w : World ν) : Place → List UInt8 → World ν → Prop
  | .standard, bytes, w' =>
    w'.standardOutput = w.standardOutput ++ bytes ∧ w'.files = w.files
  | .file path, bytes, w' =>
    w'.standardOutput = w.standardOutput ∧
      ∃ f, w.files.locate path = some f ∧ w'.files = w.files.put f bytes

/-- All of the bytes can be written to a place. -/
def World.Takes (w : World ν) (place : Place) (bytes : List UInt8) : Prop :=
  w.fitting bytes = bytes ∧ ∀ path, place = .file path → ∃ f, w.files.target path = .ok f

theorem World.Written.of_kept {w w' : World ν} (h : w.Kept w') {place : Place}
    {bytes : List UInt8} {w'' : World ν} (hw : w'.Written place bytes w'') :
    w.Written place bytes w'' := by
  cases place with
  | standard =>
    obtain ⟨houtput, hfiles⟩ := hw
    exact ⟨by rw [houtput, h.standardOutput], hfiles.trans h.files⟩
  | file path =>
    obtain ⟨houtput, f, hlocate, hfiles⟩ := hw
    rw [h.files] at hlocate hfiles
    exact ⟨houtput.trans h.standardOutput, f, hlocate, hfiles⟩

/-- **What a save leaves behind**: nothing if the file can not be created, or else what
    there is room for. -/
theorem save_start (o : Output) (w : World ν) :
    (∃ path fault, o.place = .file path ∧ w.files.target path = .error fault ∧
      (save o).start w = (.error (.early fault), w)) ∨
      ∃ w', w.Written o.place (w.fitting o.bytes) w' ∧
        (save o).start w = (w.outcome o.place o.bytes, w') := by
  obtain ⟨place, bytes⟩ := o
  cases place with
  | standard =>
    exact .inr ⟨{ w.taken (w.fitting bytes) with
      standardOutput := w.standardOutput ++ w.fitting bytes }, ⟨rfl, rfl⟩, start_outcome ..⟩
  | file path =>
    have hopen : (createFile path).start w =
        Program.start (orStop (w.files.target path) >>= fun f => do
          set { w with files := w.files.put f [] }
          return f) w := rfl
    obtain ⟨w, rfl, htarget⟩ := orStop_gives (w.files.target path) w
    cases hf : w.files.target path with
    | error fault =>
      rw [start_bind_error (htarget.trans (by rw [hf]; rfl))] at hopen
      exact .inl ⟨path, fault, rfl, hf, start_bind_error hopen⟩
    | ok f =>
      rw [start_bind_ok (htarget.trans (by rw [hf]; rfl))] at hopen
      refine .inr ⟨{ w.taken (w.fitting bytes) with files := w.files.put f (w.fitting bytes) },
        ⟨rfl, f, Files.locate_of_target hf, rfl⟩, ?_⟩
      refine (start_bind_ok hopen).trans ((start_outcome ..).trans ?_)
      rw [Files.content_put, Files.put_put]
      rfl

/-- **What the program comes to**: it stops before anything is written, or saves the output
    of its arguments. -/
theorem program_start (arguments : List String) (w : World ν) : ∃ w', w.Kept w' ∧
    ((∃ fault, output arguments w.sources = .error fault ∧
      (program arguments).start w = (.error (.early fault), w')) ∨
      ∃ o, output arguments w.sources = .ok o ∧
        (program arguments).start w = (save o).start w') := by
  obtain ⟨w', hkept, hstart⟩ := (gather_gives arguments).bind_orStop Job.output w
  simp only [← output_eq] at hstart
  have hprogram : (program arguments : Program ν Unit) =
      (gather arguments >>= fun job => orStop job.output) >>= save :=
    (bind_assoc ..).symm
  refine ⟨w', hkept, ?_⟩
  rw [hprogram]
  cases ho : output arguments w.sources with
  | error fault =>
    rw [ho] at hstart
    exact .inl ⟨fault, rfl, start_bind_error hstart⟩
  | ok o =>
    rw [ho] at hstart
    exact .inr ⟨o, rfl, start_bind_ok hstart⟩

/-- What the program can come to, and what it leaves behind then. -/
theorem program_cases {arguments : List String} {w w' : World ν} {e : Except Stop Unit}
    (h : (program arguments).start w = (e, w')) :
    (∃ fault, e = .error (.early fault) ∧ w.Kept w') ∨
      ∃ o written, output arguments w.sources = .ok o ∧ w.Written o.place written w' ∧
        (e = .ok () ∧ written = o.bytes ∨
          e = .error (.late o.place) ∧ written <+: o.bytes ∧ written.length < o.bytes.length) := by
  obtain ⟨w₁, hkept, ⟨fault, -, hstart⟩ | ⟨o, ho, hstart⟩⟩ := program_start arguments w
  · cases hstart.symm.trans h
    exact .inl ⟨fault, rfl, hkept⟩
  · obtain ⟨path, fault, -, -, hsave⟩ | ⟨w₂, hwritten, hsave⟩ := save_start o w₁
    · cases (hstart.trans hsave).symm.trans h
      exact .inl ⟨fault, rfl, hkept⟩
    · cases (hstart.trans hsave).symm.trans h
      refine .inr ⟨o, w₁.fitting o.bytes, ho, hwritten.of_kept hkept, ?_⟩
      have hprefix := w₁.fitting_prefix o.bytes
      unfold World.outcome
      split
      · next hlate => exact .inr ⟨rfl, hprefix, hlate⟩
      · next hall => exact .inl ⟨rfl, hprefix.eq_of_length (by have := hprefix.length_le; omega)⟩

end

/-! ## §4. In a directory. -/

/-- A result tells what a program comes to and leaves behind in a directory. -/
structure Result.Agrees (r : Result) (x : Except Stop Unit × World String) : Prop where
  succeeds : r.succeeds = true ↔ exitStatus x.1 = 0
  standardOutput : x.2.standardOutput = r.standardOutput
  files : x.2.files = .ofDirectory r.directory

section

variable {standardInput : List UInt8} {d : Directory}

theorem Result.Agrees.failed {stop : Stop} {w : World String}
    (h : (World.ofDirectory standardInput d).Kept w) :
    (Result.mk false [] d).Agrees (.error stop, w) :=
  ⟨iff_of_false nofun nofun, h.standardOutput, h.files⟩

theorem lookup_put (d : Directory) (name other : String) (content : List UInt8) :
    (d.put name content).files.lookup other =
      if other = name then some content else d.files.lookup other := by
  show List.lookup other ((name, content) :: d.files.filter (·.1 != name)) = _
  rw [List.lookup_cons]
  split
  · next h => rw [if_pos (eq_of_beq h)]
  · next h => rw [if_neg (ne_of_beq_false h), List.lookup_filter_ne (ne_of_beq_false h)]

theorem Files.ofDirectory_put (name : String) (content : List UInt8) :
    Files.ofDirectory (d.put name content) = (Files.ofDirectory d).put name content := by
  unfold Files.put Files.ofDirectory
  rw [Files.mk.injEq]
  exact ⟨rfl, rfl, rfl, funext fun other => lookup_put d name other content⟩

theorem fileName?_of_target {path : String} {fault : Fault}
    (h : (Files.ofDirectory d).target path = .error fault) : Directory.fileName? path = none := by
  unfold Files.target Files.ofDirectory at h
  cases hname : Directory.fileName? path with
  | none => rfl
  | some name =>
    simp only [hname, Option.filter_some, if_true] at h
    cases h

theorem Output.write?_file (path : String) (bytes : List UInt8) :
    Output.write? ⟨.file path, bytes⟩ d =
      (Directory.fileName? path).map fun name => ⟨true, [], d.put name bytes⟩ :=
  Option.map_map ..

theorem save_agrees (o : Output) {w : World String}
    (h : (World.ofDirectory standardInput d).Kept w) :
    ((o.write? d).getD ⟨false, [], d⟩).Agrees ((save o).start w) := by
  have hfits (bytes : List UInt8) : w.fitting bytes = bytes := h.fitting bytes
  have houtcome : w.outcome o.place o.bytes = .ok () := by
    unfold World.outcome
    rw [hfits]
    exact if_neg (Nat.lt_irrefl _)
  obtain ⟨place, bytes⟩ := o
  obtain ⟨path, fault, rfl, htarget, hsave⟩ | ⟨w', hw', hsave⟩ := save_start ⟨place, bytes⟩ w
  · rw [h.files] at htarget
    rw [hsave, Output.write?_file, fileName?_of_target htarget]
    exact .failed h
  · have hw' := World.Written.of_kept h hw'
    rw [hfits] at hw'
    rw [hsave, houtcome]
    cases place with
    | standard => exact ⟨iff_of_true rfl rfl, hw'.1, hw'.2⟩
    | file path =>
      obtain ⟨houtput, name, hname, hfiles⟩ := hw'
      rw [Output.write?_file, show Directory.fileName? path = some name from hname]
      exact ⟨iff_of_true rfl rfl, houtput, hfiles.trans (Files.ofDirectory_put name bytes).symm⟩

/-- **A run is what the program does in a directory.** -/
theorem run_agrees (arguments : List String) (standardInput : List UInt8) (d : Directory) :
    (run arguments standardInput d).Agrees
      ((program arguments).start (.ofDirectory standardInput d)) := by
  unfold run
  obtain ⟨w, hkept, ⟨fault, ho, hstart⟩ | ⟨o, ho, hstart⟩⟩ :=
    program_start arguments (.ofDirectory standardInput d)
  · rw [hstart, show output arguments ⟨standardInput, d.read?⟩ = .error fault from ho]
    exact .failed hkept
  · rw [hstart, show output arguments ⟨standardInput, d.read?⟩ = .ok o from ho]
    exact save_agrees o hkept

end

/-! ## §5. The whole program. -/

/-- The icon which arguments ask for, and the place where it is to go: what the first
    operand names is converted, with the configured options. -/
def Asks (arguments : List String) (sources : Sources) (place : Place) (icon : List UInt8) : Prop :=
  (grouped arguments).unfinished = none ∧ Accepted (grouped arguments).groups ∧
    ∃ document target base o bytes,
      Group.operands (grouped arguments).groups = [document, target] ∧
      Configured (grouped arguments).groups sources base o ∧
      sources.read (.ofOperand document) = .ok bytes ∧
      o.convert bytes = .ok icon ∧
      place = .ofOperand target

theorem asks_iff {arguments : List String} {sources : Sources} {o : Output} :
    Asks arguments sources o.place o.bytes ↔ output arguments sources = .ok o := by
  rw [output_eq, Except.bind_eq_ok]
  constructor
  · rintro ⟨hunfinished, haccepted, document, target, base, options, bytes, hoperands, hconfigured,
      hdocument, hconvert, hplace⟩
    exact ⟨⟨options, bytes, .ofOperand target⟩, Job.ofArguments_iff.2 ⟨hunfinished, haccepted,
      document, target, base, hoperands, hconfigured, hdocument, rfl⟩,
      Job.output_eq_ok.2 ⟨hconvert, hplace⟩⟩
  · rintro ⟨job, hjob, ho⟩
    obtain ⟨hunfinished, haccepted, document, target, base, hoperands, hconfigured, hdocument,
      hicon⟩ := Job.ofArguments_iff.1 hjob
    obtain ⟨hconvert, hplace⟩ := Job.output_eq_ok.1 ho
    exact ⟨hunfinished, haccepted, document, target, base, job.options, job.document, hoperands,
      hconfigured, hdocument, hconvert, hplace.trans hicon⟩

section

variable {ν : Type} [DecidableEq ν] {arguments others : List String}

theorem program_start_malformed {fault : ArgumentFault}
    (h : Request.ofArguments arguments = .error fault) (w : World ν) :
    (program arguments).start w = (.error (.early (.arguments fault)), w) := by
  have hgather : (gather arguments).start w = (.error (.early (.arguments fault)), w) := by
    unfold gather
    rw [h]
    rfl
  exact start_bind_error hgather

/-- Arguments which ask for the same do the same. -/
theorem program_congr
    (h : ∀ r, Request.ofArguments others = .ok r ↔ Request.ofArguments arguments = .ok r)
    (w : World ν) : ∃ e e' w', (program arguments).start w = (e, w') ∧
      (program others).start w = (e', w') ∧ exitStatus e' = exitStatus e := by
  cases hr : Request.ofArguments arguments with
  | ok r =>
    have hsame : (program others : Program ν Unit) = program arguments := by
      unfold program gather
      rw [hr, (h r).2 hr]
    rw [hsame]
    exact ⟨_, _, _, rfl, rfl, rfl⟩
  | error fault =>
    cases hr' : Request.ofArguments others with
    | ok r => cases hr.symm.trans ((h r).1 hr')
    | error fault' =>
      exact ⟨_, _, w, program_start_malformed hr w, program_start_malformed hr' w, rfl⟩

/-- What is asked for and can be written is written. -/
theorem exitStatus_of_asks {place : Place} {icon : List UInt8} {w w' : World ν}
    {e : Except Stop Unit} (h : (program arguments).start w = (e, w'))
    (hasks : Asks arguments w.sources place icon) (htakes : w.Takes place icon) :
    exitStatus e = 0 := by
  have ho : output arguments w.sources = .ok ⟨place, icon⟩ := asks_iff.1 hasks
  obtain ⟨hfits, htarget⟩ := htakes
  obtain ⟨w₁, hkept, ⟨fault, hfault, -⟩ | ⟨o, ho', hstart⟩⟩ := program_start arguments w
  · cases ho.symm.trans hfault
  · cases ho.symm.trans ho'
    obtain ⟨path, fault, hplace, hfault, -⟩ | ⟨w₂, -, hsave⟩ := save_start ⟨place, icon⟩ w₁
    · obtain ⟨f, hf⟩ := htarget path hplace
      rw [hkept.files] at hfault
      cases hf.symm.trans hfault
    · cases (hstart.trans hsave).symm.trans h
      unfold World.outcome
      rw [hkept.fitting, hfits, if_neg (Nat.lt_irrefl _)]
      rfl

/-- **What the program leaves behind.**  As long as it does not write the icon, nothing.  If
    it succeeds, exactly the icon its arguments ask for, where they want it, and it succeeds
    whenever that can be written; if the room does not suffice, a part of it there.  In what
    order the groups of the arguments stand makes no difference. -/
theorem program_effects (arguments : List String) (w w' : World ν) (e : Except Stop Unit)
    (h : (program arguments).start w = (e, w')) :
    ((∃ fault, e = .error (.early fault)) →
      w'.standardOutput = w.standardOutput ∧ w'.files = w.files) ∧
    (exitStatus e = 0 →
      ∃ place icon, Asks arguments w.sources place icon ∧ w.Written place icon w') ∧
    (∀ place icon, Asks arguments w.sources place icon → w.Takes place icon →
      exitStatus e = 0) ∧
    (∀ place, e = .error (.late place) →
      ∃ icon part, Asks arguments w.sources place icon ∧ part <+: icon ∧
        part.length < icon.length ∧ w.Written place part w') ∧
    ((grouped arguments).arguments = arguments ∧
      ∀ gs, Reordering (grouped arguments).groups gs →
        ∃ e', (program (Grouping.arguments ⟨gs, (grouped arguments).unfinished⟩)).start w =
          (e', w') ∧ exitStatus e' = exitStatus e) ∧
    (∀ standardInput d, (run arguments standardInput d).Agrees
      ((program arguments).start (.ofDirectory standardInput d))) := by
  refine ⟨?early, ?success, fun _ _ => exitStatus_of_asks h, ?late,
    ⟨grouped_arguments arguments, ?order⟩, run_agrees arguments⟩
  case order =>
    intro gs hgs
    obtain ⟨e₁, e', w₁, hstart, hother, hstatus⟩ := program_congr hgs.ofArguments w
    cases hstart.symm.trans h
    exact ⟨e', hother, hstatus⟩
  all_goals
    obtain ⟨fault, rfl, hkept⟩ | ⟨o, written, ho, hwritten, ⟨rfl, rfl⟩ | ⟨rfl, hpart⟩⟩ :=
      program_cases h
  case early.inl => exact fun _ => ⟨hkept.standardOutput, hkept.files⟩
  case early.inr.inl => exact nofun
  case early.inr.inr => exact nofun
  case success.inl => exact nofun
  case success.inr.inl => exact fun _ => ⟨o.place, o.bytes, asks_iff.2 ho, hwritten⟩
  case success.inr.inr => exact nofun
  case late.inl => exact nofun
  case late.inr.inl => exact nofun
  case late.inr.inr =>
    rintro _ ⟨⟩
    exact ⟨o.bytes, written, asks_iff.2 ho, hpart.1, hpart.2, hwritten⟩

end

/-- A directory with a document and options. -/
def iconDirectory : Directory where
  files :=
    [("icon.svg", "<svg viewBox=\"0 0 24 24\"><path d=\"M2 2H9V9Z\"/></svg>".toUTF8.toList),
      ("options.json", "\x7b\"output_size\":24\x7d".toUTF8.toList)]

/-- Arguments with a size which goes before that of the options. -/
def resizingArguments : List String :=
  ["icon.svg", "-s", "32", "-c", "options.json", "icon.ivg"]

theorem program_effects_iconDirectory :
    ∃ icon w', (program resizingArguments).start (.ofDirectory [] iconDirectory) = (.ok (), w') ∧
      Asks resizingArguments (World.ofDirectory [] iconDirectory).sources (.file "icon.ivg") icon ∧
      (World.ofDirectory [] iconDirectory).Written (.file "icon.ivg") icon w' := by
  have hstatus :
      exitStatus ((program resizingArguments).start (.ofDirectory [] iconDirectory)).1 = 0 := by
    decide +kernel
  cases hstart : (program resizingArguments).start (.ofDirectory [] iconDirectory) with
  | mk e w' =>
    rw [hstart] at hstatus
    obtain ⟨place, icon, hasks, hwritten⟩ := (program_effects _ _ w' e hstart).2.1 hstatus
    obtain ⟨_, _, _, target, _, _, _, hoperands, _, _, _, hplace⟩ := id hasks
    obtain rfl : target = "icon.ivg" := (List.cons.inj (List.cons.inj hoperands).2).1.symm
    obtain rfl : place = .file "icon.ivg" := hplace.trans (by decide)
    cases e with
    | ok u => exact ⟨icon, w', rfl, hasks, hwritten⟩
    | error stop => cases hstatus

end CommandLine

end VectorIcon

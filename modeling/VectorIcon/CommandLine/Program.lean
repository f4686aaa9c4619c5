/-
  VectorIcon.CommandLine.Program
  ────────────────────────────────
  **THE PROGRAM ACTION BY ACTION.**

  The program acts on a world of files and standard streams, one action after the
  other; an action which fails leaves what was done before it.  Files are written
  in two steps: the file is created, which empties the one that is there, and then
  takes bytes as long as there is room for them.  That no failure leaves traces
  therefore depends on the order of the actions; `Proofs.CommandLine.Effects`
  shows it, and that the program does what `CommandLine.run` says.
-/
import VectorIcon.CommandLine.Run

namespace VectorIcon

namespace CommandLine

/-! ## §1. The world. -/

/-- Files as paths lead to them.  Several paths may lead to one file, and a path
    may lead to a file which does not exist yet or, like that of a directory, to
    none. -/
structure Files (ν : Type) where
  /-- The file to which a path leads. -/
  locate : String → Option ν
  readable : ν → Bool
  writable : ν → Bool
  /-- The bytes of a file, none if it does not exist. -/
  content : ν → Option (List UInt8)

namespace Files

variable {ν : Type}

/-- What can be read at a path. -/
def read? (fs : Files ν) (path : String) : Option (List UInt8) :=
  (fs.locate path).bind fun f => if fs.readable f then fs.content f else none

/-- The file which is written at a path. -/
def target (fs : Files ν) (path : String) : Except Fault ν :=
  match (fs.locate path).filter fs.writable with
  | some f => .ok f
  | none => .error (.unwritable path)

/-- The files with other bytes in one of them. -/
def put [DecidableEq ν] (fs : Files ν) (f : ν) (bytes : List UInt8) : Files ν :=
  { fs with content := fun g => if g = f then some bytes else fs.content g }

end Files

/-- What a program can read and change. -/
structure World (ν : Type) where
  /-- What is not yet read of the standard input. -/
  standardInput : List UInt8
  /-- What is written to the standard output so far. -/
  standardOutput : List UInt8
  files : Files ν
  /-- The number of bytes which can still be written, if that is limited. -/
  room : Option Nat

namespace World

variable {ν : Type}

/-- What can be read in the world. -/
def sources (w : World ν) : Sources := ⟨w.standardInput, w.files.read?⟩

/-- The bytes for which there is room. -/
def fitting (w : World ν) (bytes : List UInt8) : List UInt8 :=
  match w.room with
  | some n => bytes.take n
  | none => bytes

/-- The world after some bytes took their room. -/
def taken (w : World ν) (bytes : List UInt8) : World ν :=
  { w with room := w.room.map (· - bytes.length) }

end World

/-! ## §2. Actions. -/

/-- Why a program stops. -/
inductive Stop where
  /-- A fault before anything is written. -/
  | early (fault : Fault)
  /-- There is no room for all bytes which are to be written. -/
  | late (place : Place)

/-- A program which gives an `α`, or stops; the world is left as it is then. -/
abbrev Program (ν α : Type) := ExceptT Stop (StateM (World ν)) α

section

variable {ν : Type}

/-- What comes of a program in a world, and the world after it. -/
def Program.start {α : Type} (p : Program ν α) (w : World ν) : Except Stop α × World ν := p.run.run w

/-- Stop with a fault, if there is one. -/
def orStop {α : Type} : Except Fault α → Program ν α
  | .ok a => pure a
  | .error fault => throw (.early fault)

/-- Open a file and read it. -/
def readFile (path : String) : Program ν (List UInt8) := do
  let w ← get
  orStop (w.sources.file path)

/-- Read the standard input to its end. -/
def readStandardInput : Program ν (List UInt8) := do
  let w ← get
  set { w with standardInput := [] }
  return w.standardInput

/-- Write to the standard output. -/
def writeStandardOutput (bytes : List UInt8) : Program ν Unit := do
  let w ← get
  let written := w.fitting bytes
  set { w.taken written with standardOutput := w.standardOutput ++ written }
  if written.length < bytes.length then throw (.late .standard)

variable [DecidableEq ν]

/-- Create a file, or empty the one which is there. -/
def createFile (path : String) : Program ν ν := do
  let w ← get
  let f ← orStop (w.files.target path)
  set { w with files := w.files.put f [] }
  return f

/-- Write to a file which was created, after what is in it. -/
def writeFile (path : String) (f : ν) (bytes : List UInt8) : Program ν Unit := do
  let w ← get
  let written := w.fitting bytes
  set { w.taken written with files := w.files.put f ((w.files.content f).getD [] ++ written) }
  if written.length < bytes.length then throw (.late (.file path))

end

/-! ## §3. The program. -/

section

variable {ν : Type}

/-- Read the bytes at a place. -/
def readPlace : Place → Program ν (List UInt8)
  | .standard => readStandardInput
  | .file path => readFile path

/-- The options before size and color are set: those of the file, if one is named. -/
def readBaseOptions (s : Settings) : Program ν ConversionOptions :=
  match s.optionsPath with
  | none => pure .default
  | some path => do orStop (Settings.optionsOfFile (← readFile path))

/-- The options of the conversion, with the size and the color of the arguments. -/
def readOptions (s : Settings) : Program ν ConversionOptions := do
  return s.override (← readBaseOptions s)

/-- What a conversion starts from. -/
structure Job where
  options : ConversionOptions
  document : List UInt8
  icon : Place

/-- Take in the arguments, the options and the document. -/
def gather (arguments : List String) : Program ν Job := do
  let request ← orStop (Request.ofArguments arguments |>.mapError .arguments)
  let options ← readOptions request.settings
  let document ← readPlace request.document
  return ⟨options, document, request.icon⟩

/-- What a job writes. -/
def Job.output (job : Job) : Except Fault Output :=
  match job.options.convert job.document with
  | .ok icon => .ok ⟨job.icon, icon⟩
  | .error error => .error (.conversion error)

variable [DecidableEq ν]

/-- Write an output. -/
def save (o : Output) : Program ν Unit :=
  match o.place with
  | .standard => writeStandardOutput o.bytes
  | .file path => do writeFile path (← createFile path) o.bytes

/-- The whole program. -/
def program (arguments : List String) : Program ν Unit := do
  let job ← gather arguments
  let output ← orStop job.output
  save output

/-- The exit status of a program which came to an end. -/
def exitStatus : Except Stop Unit → Nat
  | .ok _ => 0
  | .error _ => 1

end

/-! ## §4. The world of a directory. -/

/-- The files of a directory, which can all be read and written. -/
def Files.ofDirectory (d : Directory) : Files String where
  locate := Directory.fileName?
  readable _ := true
  writable _ := true
  content name := d.files.lookup name

/-- The world in which a program starts in a directory, with room for everything. -/
def World.ofDirectory (standardInput : List UInt8) (d : Directory) : World String :=
  ⟨standardInput, [], .ofDirectory d, none⟩

end CommandLine

end VectorIcon

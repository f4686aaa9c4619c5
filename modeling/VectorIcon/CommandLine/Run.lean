/-
  VectorIcon.CommandLine.Run
  ────────────────────────────────
  **A RUN OF THE PROGRAM.**

  A run reads the options, then the document, converts it and writes the icon,
  which is the only thing it ever writes.  Size and color of the arguments go
  before those of the options file.
-/
import VectorIcon.CommandLine.Arguments
import VectorIcon.CommandLine.Directory
import VectorIcon.Conversion.Basic

namespace VectorIcon

namespace CommandLine

/-! ## §1. What is written. -/

/-- What a run can read. -/
structure Sources where
  standardInput : List UInt8
  file? : String → Option (List UInt8)

/-- Why a run fails. -/
inductive Fault where
  | arguments (fault : ArgumentFault)
  | unreadable (path : String)
  | notUtf8 (fault : Text.Utf8Fault)
  | conversion (error : Error)
  | unwritable (path : String)
deriving Inhabited

/-- What a run writes. -/
structure Output where
  place : Place
  bytes : List UInt8
deriving DecidableEq, Repr, Inhabited

namespace Sources

/-- The content of a file. -/
def file (s : Sources) (path : String) : Except Fault (List UInt8) :=
  match s.file? path with
  | some bytes => .ok bytes
  | none => .error (.unreadable path)

/-- The bytes at a place. -/
def read (s : Sources) : Place → Except Fault (List UInt8)
  | .standard => .ok s.standardInput
  | .file path => s.file path

end Sources

namespace Settings

/-- The options of a file. -/
def optionsOfFile (bytes : List UInt8) : Except Fault ConversionOptions :=
  match Text.Utf8.decode bytes with
  | .error fault => .error (.notUtf8 fault)
  | .ok text =>
    match ConversionOptions.ofJson text with
    | .error fault => .error (.conversion (.json fault))
    | .ok options => .ok options

/-- The options before size and color are set. -/
def baseOptions (s : Settings) (sources : Sources) : Except Fault ConversionOptions :=
  match s.optionsPath with
  | none => .ok .default
  | some path => do optionsOfFile (← sources.file path)

/-- Options with the size and the color of the arguments. -/
def override (s : Settings) (options : ConversionOptions) : ConversionOptions where
  outputSize := s.size.getD options.outputSize
  exclusions := options.exclusions
  foreground := s.foreground.getD options.foreground

/-- The options of the conversion. -/
def options (s : Settings) (sources : Sources) : Except Fault ConversionOptions := do
  return s.override (← s.baseOptions sources)

end Settings

namespace Request

/-- What a request writes. -/
def output (r : Request) (sources : Sources) : Except Fault Output := do
  let options ← r.settings.options sources
  let document ← sources.read r.document
  match options.convert document with
  | .ok icon => return ⟨r.icon, icon⟩
  | .error error => throw (.conversion error)

/-- The paths of the files which a request reads. -/
def paths (r : Request) : List String :=
  r.settings.optionsPath.toList ++
    match r.document with
    | .standard => []
    | .file path => [path]

end Request

/-! ## §2. The whole run. -/

/-- What is there after a run. -/
structure Result where
  succeeds : Bool
  standardOutput : List UInt8
  directory : Directory
deriving DecidableEq, Repr, Inhabited

/-- Write an output; none if its path can not be written. -/
def Output.write? (o : Output) (d : Directory) : Option Result :=
  match o.place with
  | .standard => some ⟨true, o.bytes, d⟩
  | .file path => (d.write? path o.bytes).map fun d => ⟨true, [], d⟩

/-- What arguments write. -/
def output (arguments : List String) (sources : Sources) : Except Fault Output :=
  match Request.ofArguments arguments with
  | .ok request => request.output sources
  | .error fault => .error (.arguments fault)

/-- A run in a directory.  A failure leaves everything as it was. -/
def run (arguments : List String) (standardInput : List UInt8) (d : Directory) : Result :=
  let failed : Result := ⟨false, [], d⟩
  match output arguments ⟨standardInput, d.read?⟩ with
  | .ok output => (output.write? d).getD failed
  | .error _ => failed

/-! ## §3. Wording. -/

/-- The name of the program, if it is not told by which one it is called. -/
def defaultCommand : String := "ivgconv"

/-- How the program is used which is called by a name. -/
def usageText (command : String) : String := "\n".intercalate [
  "Very simple tool that converts SVG icon into IconVG",
  "",
  "USAGE:",
  "    " ++ command ++ " [-s <size>] [-fg <color>] [-c <options.json>] <icon.svg> <icon.ivg>",
  "",
  "ARGS:",
  "    -s <size>          size of the output icon (default: 48)",
  "    -fg <color>        foreground color stored in the palette",
  "    -c <options.json>  conversion options in JSON format",
  "    <icon.svg>         SVG document ('-' means stdin)",
  "    <icon.ivg>         IconVG output ('-' means stdout)"]

/-- The wording of a fault of the arguments. -/
def ArgumentFault.message (command : String) : ArgumentFault → String
  | .usage => usageText command
  | .missingValue .size => "-s requires argument"
  | .missingValue .foreground => "-fg requires color #rrggbb(aa) argument"
  | .missingValue .options => "-c requires argument"
  | .malformedSize _ => "invalid float literal"
  | .smallSize => "output size is too small"
  | .malformedColor text => (Error.markup (.invalidColor text.toList)).message
  | .extraOperand _ => "unexpected positional argument"

/-- The wording of a fault. -/
def Fault.message (command : String) : Fault → String
  | .arguments fault => fault.message command
  | .unreadable path => "cannot read " ++ path
  | .notUtf8 fault => fault.message
  | .conversion error => error.message
  | .unwritable path => "cannot write " ++ path

end CommandLine

end VectorIcon

/-
  VectorIcon.Main
  ────────────────────────────────
  **THE PROGRAM.**

  Reads what a request names, leaves the rest to `CommandLine.Request.output`
  and writes the result.
-/
import VectorIcon.CommandLine.Run

namespace VectorIcon

namespace CommandLine

/-- The content of a file, none if it can not be read. -/
def readFile? (path : String) : IO (Option (List UInt8)) := do
  match ← (IO.FS.readBinFile path).toBaseIO with
  | .ok bytes => return some bytes.toList
  | .error _ => return none

/-- The files with the given paths which can be read. -/
def readFiles : List String → IO (List (String × List UInt8))
  | [] => return []
  | path :: paths => do
    let files ← readFiles paths
    match ← readFile? path with
    | some bytes => return (path, bytes) :: files
    | none => return files

/-- What a request can read. -/
def readSources (r : Request) : IO Sources := do
  let files ← readFiles r.paths
  match r.document with
  | .standard =>
    let bytes ← (← IO.getStdin).readBinToEnd
    return ⟨bytes.toList, (List.lookup · files)⟩
  | .file _ => return ⟨[], (List.lookup · files)⟩

/-- The name of the program: the path of its own file. -/
def commandName : IO String := do
  match ← IO.appPath.toBaseIO with
  | .ok path => return path.toString
  | .error _ => return defaultCommand

/-- Report a fault. -/
def report (f : Fault) : IO UInt32 := do
  IO.eprintln (f.message (← commandName))
  return 1

/-- Write an output. -/
def write (o : Output) : IO UInt32 := do
  let bytes := ByteArray.mk o.bytes.toArray
  match o.place with
  | .standard =>
    let stdout ← IO.getStdout
    stdout.write bytes
    stdout.flush
    return 0
  | .file path =>
    match ← (IO.FS.writeBinFile path bytes).toBaseIO with
    | .ok _ => return 0
    | .error _ => report (.unwritable path)

/-- Convert a document into an icon as the arguments say. -/
def execute (arguments : List String) : IO UInt32 := do
  match Request.ofArguments arguments with
  | .error fault => report (.arguments fault)
  | .ok request =>
    match request.output (← readSources request) with
    | .ok output => write output
    | .error fault => report fault

end CommandLine

end VectorIcon

/-- The entry point; the exit status is zero if the icon is written. -/
def main (arguments : List String) : IO UInt32 := VectorIcon.CommandLine.execute arguments

/-
  VectorIcon.CommandLine.Arguments
  ────────────────────────────────
  **ARGUMENTS OF THE COMMAND LINE.**

      [-s <size>] [-fg <color>] [-c <options.json>] <icon.svg> <icon.ivg>

  A flag takes the argument after it, whatever that is; of a repeated flag the
  last value counts.  All other arguments are operands, and there are exactly
  two of them, the document and the icon, where `-` stands for the standard
  streams.  `-h` asks for help and ends the reading.
-/
import VectorIcon.Color
import VectorIcon.Geometry
import VectorIcon.Number.Decimal

namespace VectorIcon

namespace CommandLine

/-! ## §1. What is asked for. -/

/-- Where bytes come from or go to. -/
inductive Place where
  /-- The standard input or output. -/
  | standard
  | file (path : String)
deriving DecidableEq, Repr, Inhabited

/-- The place of an operand. -/
def Place.ofOperand (operand : String) : Place :=
  if operand = "-" then .standard else .file operand

/-- The flags with a value. -/
inductive Flag where
  | size
  | foreground
  | options
deriving DecidableEq, Repr, Inhabited

/-- The flag as it is written. -/
def Flag.text : Flag → String
  | .size => "-s"
  | .foreground => "-fg"
  | .options => "-c"

/-- What is wrong with arguments. -/
inductive ArgumentFault where
  /-- Help is asked for, or there are too few operands. -/
  | usage
  | missingValue (flag : Flag)
  | malformedSize (text : String)
  | smallSize
  | malformedColor (text : String)
  | extraOperand (text : String)
deriving DecidableEq, Repr, Inhabited

/-- What the arguments say so far. -/
structure Settings where
  /-- The file of the options. -/
  optionsPath : Option String
  size : Option Scalar
  foreground : Option Rgba
  operands : List String
deriving Inhabited

/-- What the arguments ask for. -/
structure Request where
  document : Place
  icon : Place
  settings : Settings
deriving Inhabited

/-! ## §2. Sizes. -/

/-- Numbers which are written as a word, in lower case. -/
def wordScalar? (text : List Char) : Option Scalar :=
  if text = "inf".toList ∨ text = "infinity".toList then some Scalar.infinity
  else if text = "nan".toList then some Scalar.notANumber
  else none

/-- The number of a text: a decimal numeral, or a word of either case with an
    optional sign. -/
def scalar? (text : List Char) : Option Scalar :=
  match Decimal.parse? text with
  | some d => some d.toScalar
  | none =>
    let (negative, word) := Decimal.splitSign text
    (wordScalar? (word.map Char.toLower)).map (Scalar.withSign negative)

/-- The size of a text, not less than `epsilon`. -/
def size (text : String) : Except ArgumentFault Scalar :=
  match scalar? text.toList with
  | none => .error (.malformedSize text)
  | some x => if x < epsilon then .error .smallSize else .ok x

/-- The color of a text. -/
def color (text : String) : Except ArgumentFault Rgba :=
  match Rgba.parse? text.toList with
  | none => .error (.malformedColor text)
  | some c => .ok c

/-! ## §3. Reading arguments. -/

/-- What an argument is by itself. -/
inductive Argument where
  | help
  | flag (flag : Flag)
  | operand (text : String)
deriving DecidableEq, Repr, Inhabited

/-- The meaning of an argument. -/
def Argument.ofText (text : String) : Argument :=
  if text = "-h" then .help
  else if text = "-s" then .flag .size
  else if text = "-fg" then .flag .foreground
  else if text = "-c" then .flag .options
  else .operand text

namespace Settings

/-- No arguments. -/
def empty : Settings := ⟨none, none, none, []⟩

/-- Take in a flag with its value. -/
def setFlag (s : Settings) (flag : Flag) (value : String) : Except ArgumentFault Settings :=
  match flag with
  | .size => do return { s with size := some (← CommandLine.size value) }
  | .foreground => do return { s with foreground := some (← color value) }
  | .options => .ok { s with optionsPath := some value }

/-- Take in an operand; a third one is refused. -/
def addOperand (s : Settings) (operand : String) : Except ArgumentFault Settings :=
  if s.operands.length < 2 then .ok { s with operands := s.operands ++ [operand] }
  else .error (.extraOperand operand)

/-- Take in arguments. -/
def readAll (s : Settings) : List String → Except ArgumentFault Settings
  | [] => .ok s
  | [last] =>
    match Argument.ofText last with
    | .help => .error .usage
    | .flag flag => .error (.missingValue flag)
    | .operand text => s.addOperand text
  | first :: second :: rest =>
    match Argument.ofText first with
    | .help => .error .usage
    | .flag flag => do (← s.setFlag flag second).readAll rest
    | .operand text => do (← s.addOperand text).readAll (second :: rest)

end Settings

/-- The request of arguments. -/
def Request.ofArguments (arguments : List String) : Except ArgumentFault Request := do
  let settings ← Settings.empty.readAll arguments
  match settings.operands with
  | [document, icon] => return ⟨.ofOperand document, .ofOperand icon, settings⟩
  | _ => throw .usage

end CommandLine

end VectorIcon

/-
  VectorIcon.Json.Decode
  ────────────────────────────────
  **FROM SOURCES AND VALUES TO NUMBERS, STRINGS AND RECORDS.**

  A record is read from an object or from an array of its fields in order.  The
  members of an object are taken in one by one, a repeated name is a fault as
  soon as it is read, and what is not a field is skipped.
-/
import VectorIcon.Json.Source

namespace VectorIcon

namespace Json

/-- How deep arrays and objects may be nested, the bound excluded. -/
def depthLimit : Nat := 128

/-! ## §1. Sources. -/

namespace Source

/-- A number. -/
def scalar : Source → Except Fault Scalar
  | .number n => return (← n).toScalar
  | v => throw v.mismatchFault

/-- A string. -/
def text : Source → Except Fault (List Char)
  | .string s => s
  | v => throw v.mismatchFault

/-- Go on after the last item or member only if the container is closed there. -/
def closed (fault : Option Fault) : Except Fault Unit :=
  match fault with
  | some f => throw f
  | none => return ()

/-- A list of what `f` reads. -/
def list {α : Type} (f : Source → Except Fault α) : Source → Except Fault (List α)
  | .array items fault => do
    let as ← items.mapM f
    closed fault
    return as
  | v => throw v.mismatchFault

/-- The next field of a record which is written as an array; none if the array
    ends before it. -/
def nextField {α : Type} (f : Source → Except Fault α) (items : List Source)
    (fault : Option Fault) : Except Fault (Option α × List Source) :=
  match items with
  | v :: vs => return (some (← f v), vs)
  | [] => do
    closed fault
    return (none, [])

/-- The end of a record which is written as an array; more items than fields
    are not accepted. -/
def endFields (items : List Source) (fault : Option Fault) : Except Fault Unit :=
  match items with
  | _ :: _ => throw .notJson
  | [] => closed fault

/-- Take in the members of an object in order. -/
def foldMembers {σ : Type} (step : σ → List Char → Source → Except Fault σ) (init : σ)
    (members : List (Key × Source)) (fault : Option Broken) : Except Fault σ := do
  let s ← members.foldlM (fun s m => do step s (← m.1) m.2) init
  closed (fault.map (·.whenRead))
  return s

/-- Set a field which must not be set yet. -/
def setOnce {α : Type} (old : Option α) (f : Source → Except Fault α) (v : Source) :
    Except Fault (Option α) :=
  if old.isSome then throw .mismatch else return some (← f v)

/-- A field which must be there. -/
def required {α : Type} (field : Option α) : Except Fault α :=
  match field with
  | some a => return a
  | none => throw .mismatch

end Source

/-! ## §2. Values. -/

namespace Value

/-- A number. -/
def scalar : Value → Except Fault Scalar
  | .number n => return n.toScalar
  | _ => throw .mismatch

/-- A number, or none for `null`. -/
def optionalScalar : Value → Except Fault (Option Scalar)
  | .null => return none
  | .number n => return some n.toScalar
  | _ => throw .mismatch

/-- A string. -/
def text : Value → Except Fault (List Char)
  | .string s => return s
  | _ => throw .mismatch

/-- A truth value. -/
def truth : Value → Except Fault Bool
  | .bool b => return b
  | _ => throw .mismatch

/-- A list of what `f` reads. -/
def list {α : Type} (f : Value → Except Fault α) : Value → Except Fault (List α)
  | .array items => items.mapM f
  | _ => throw .mismatch

/-- The field of a name, read by `f`, or its default; a repeated field is a
    fault. -/
def field {α : Type} (members : List (List Char × Value)) (name : String)
    (f : Value → Except Fault α) (default : α) : Except Fault α :=
  match members.filter (·.1 = name.toList) with
  | [] => return default
  | [m] => f m.2
  | _ => throw .mismatch

end Value

/-! ## §3. Texts. -/

/-- What a whole text holds; nothing may follow the value. -/
def decode {α : Type} (f : Source → Except Fault α) (text : List Char) : Except Fault α := do
  let d := parse text
  let a ← f d.source
  if d.trailing then throw .notJson
  return a

end Json

end VectorIcon

/-
  VectorIcon.Json.Source
  ────────────────────────────────
  **JSON TEXT AS FAR AS IT CAN BE READ.**

  A reader of JSON takes values in as they come and stops at the first fault it
  meets, so a member of the wrong kind is reported although the text breaks off
  after it.  A `Source` is the tree of a text up to its first broken place, with
  the fault at the place where it stands; whoever walks over the tree in order
  meets the faults in the order of the text.

      Source.value?    — the value, if all of it is read
      Source.skip      — the fault met if the value is skipped
-/
import VectorIcon.Json.Token

namespace VectorIcon

namespace Json

/-! ## §1. Sources. -/

/-- The name of a member; the error is met only if it is read. -/
abbrev Key := Except Fault (List Char)

/-- A value as far as it could be read. -/
inductive Source where
  | null
  | bool (b : Bool)
  | number (n : Except Fault Number)
  | string (s : Except Fault (List Char))
  /-- Items, and the fault after the last one if the array is not closed there. -/
  | array (items : List Source) (fault : Option Fault)
  /-- Members, and the fault after the last one if the object is not closed
      there. -/
  | object (members : List (Key × Source)) (fault : Option Broken)
  | broken (b : Broken)
deriving Inhabited

/-- A whole text. -/
structure Document where
  source : Source
  /-- Whether something follows the value. -/
  trailing : Bool
deriving Inhabited

/-! ## §2. Putting tokens together. -/

/-- An array or object which is not complete; its parts are latest first. -/
inductive Container where
  | array (items : List Source)
  /-- With the name whose value is still to come, if it is known. -/
  | object (members : List (Key × Source)) (key : Option Key)

/-- What may come next. -/
inductive Expected where
  /-- A value. -/
  | value
  /-- A value or the end of an array. -/
  | itemOrEnd
  /-- The name of a member. -/
  | key
  /-- The name of a member or the end of an object. -/
  | keyOrEnd
  /-- The colon after a name. -/
  | colon
  /-- A comma or the end of the innermost container. -/
  | next

namespace Container

/-- The container with one more value. -/
def add (v : Source) : Container → Container
  | .array items => .array (v :: items)
  | .object members (some k) => .object ((k, v) :: members) none
  | .object members none => .object members none

/-- The source of a container which ends here. -/
def close : Container → Source
  | .array items => .array items.reverse none
  | .object members _ => .object members.reverse none

/-- The source of a container in which a fault stands. -/
def stop (b : Broken) : Container → Source
  | .array items => .array items.reverse (some b.whenRead)
  | .object members _ => .object members.reverse (some b)

/-- Whether the container is an array. -/
def isArray : Container → Bool
  | .array _ => true
  | .object _ _ => false

end Container

/-- The whole source around a value which is the last one that could be read. -/
def unwind (stack : List Container) (v : Source) : Source :=
  stack.foldl (fun v c => (c.add v).close) v

/-- The state after a token. -/
inductive Progress where
  /-- More tokens have to come. -/
  | open (stack : List Container) (e : Expected)
  /-- The outermost value is complete. -/
  | complete (v : Source)
  /-- The text is broken here. -/
  | stopped (v : Source)

/-- The text breaks where a value should stand. -/
def stopAtValue (stack : List Container) (b : Broken) : Progress :=
  .stopped (unwind stack (.broken b))

/-- The text breaks where the innermost container should go on or end. -/
def stopInside (stack : List Container) (b : Broken) : Progress :=
  match stack with
  | c :: cs => .stopped (unwind cs (c.stop b))
  | [] => .stopped (.broken b)

/-- The text breaks where something else was expected. -/
def stopAt (stack : List Container) (e : Expected) (b : Broken) : Progress :=
  match e with
  | .value | .colon => stopAtValue stack b
  | .itemOrEnd | .key | .keyOrEnd | .next => stopInside stack b

/-- A complete value goes into the innermost container. -/
def deliver (stack : List Container) (v : Source) : Progress :=
  match stack with
  | [] => .complete v
  | c :: cs => .open (c.add v :: cs) .next

/-- The end of the innermost container, which has to be of the right kind. -/
def closeInnermost (stack : List Container) (e : Expected) (array : Bool) : Progress :=
  match stack with
  | c :: cs => if c.isArray = array then deliver cs c.close else stopAt stack e (.both .notJson)
  | [] => stopAt stack e (.both .notJson)

/-- Take in a token where a value should stand. -/
def stepValue (stack : List Container) : Token → Progress
  | .null => deliver stack .null
  | .bool b => deliver stack (.bool b)
  | .number n => deliver stack (.number n)
  | .string s => deliver stack (.string s)
  | .leftBracket => .open (.array [] :: stack) .itemOrEnd
  | .leftBrace => .open (.object [] none :: stack) .keyOrEnd
  | .brokenString b | .brokenValue b => stopAtValue stack b
  | _ => stopAtValue stack (.both .notJson)

/-- Take in a token where the name of a member should stand. -/
def stepKey (stack : List Container) (t : Token) : Progress :=
  match t, stack with
  | .string s, .object members _ :: cs => .open (.object members (some s) :: cs) .colon
  | .brokenString b, _ => stopInside stack b
  | _, _ => stopInside stack (.both .notJson)

/-- Take in a token. -/
def step (stack : List Container) (e : Expected) (t : Token) : Progress :=
  match e, t with
  | .value, t => stepValue stack t
  | .itemOrEnd, .rightBracket => closeInnermost stack e true
  | .itemOrEnd, t => stepValue stack t
  | .key, t => stepKey stack t
  | .keyOrEnd, .rightBrace => closeInnermost stack e false
  | .keyOrEnd, t => stepKey stack t
  | .colon, .colon => .open stack .value
  | .next, .rightBracket => closeInnermost stack e true
  | .next, .rightBrace => closeInnermost stack e false
  | .next, .comma =>
    match stack with
    | c :: _ => .open stack (if c.isArray then .value else .key)
    | [] => stopAt stack e (.both .notJson)
  | .colon, _ | .next, _ => stopAt stack e (.both .notJson)

/-- Put the rest of the tokens together. -/
def assemble (stack : List Container) (e : Expected) : List Token → Document
  | [] =>
    match stopAt stack e (.both .endOfText) with
    | .complete v | .stopped v => ⟨v, false⟩
    | .open _ _ => ⟨.broken (.both .endOfText), false⟩
  | t :: ts =>
    match step stack e t with
    | .open stack e => assemble stack e ts
    | .complete v => ⟨v, !ts.isEmpty⟩
    | .stopped v => ⟨v, false⟩

/-- The source of a text. -/
def parse (s : List Char) : Document := assemble [] .value (tokens s)

/-! ## §3. Reading and skipping. -/

namespace Source

mutual

/-- The fault which is met if the source is skipped. -/
def skip : Source → Except Fault Unit
  | .array items fault => do
    skipItems items
    match fault with
    | some f => throw f
    | none => return ()
  | .object members fault => do
    skipMembers members
    match fault with
    | some b => throw b.whenSkipped
    | none => return ()
  | .broken b => throw b.whenSkipped
  | _ => return ()

/-- Skip items in order. -/
def skipItems : List Source → Except Fault Unit
  | [] => return ()
  | v :: vs => do
    skip v
    skipItems vs

/-- Skip members in order; the names of members are not read. -/
def skipMembers : List (Key × Source) → Except Fault Unit
  | [] => return ()
  | (_, v) :: ms => do
    skip v
    skipMembers ms

end

mutual

/-- The value of the source, which may contain less than `depth` arrays and
    objects within each other. -/
def value? (depth : Nat) : Source → Except Fault Value
  | .null => return .null
  | .bool b => return .bool b
  | .number n => return .number (← n)
  | .string s => return .string (← s)
  | .array items fault => do
    if depth ≤ 1 then throw .notJson
    let vs ← itemValues (depth - 1) items
    match fault with
    | some f => throw f
    | none => return .array vs
  | .object members fault => do
    if depth ≤ 1 then throw .notJson
    let ms ← memberValues (depth - 1) members
    match fault with
    | some b => throw b.whenRead
    | none => return .object ms
  | .broken b => throw b.whenRead

/-- The values of items in order. -/
def itemValues (depth : Nat) : List Source → Except Fault (List Value)
  | [] => return []
  | v :: vs => do
    let w ← value? depth v
    return w :: (← itemValues depth vs)

/-- The values of members in order. -/
def memberValues (depth : Nat) : List (Key × Source) → Except Fault (List (List Char × Value))
  | [] => return []
  | (k, v) :: ms => do
    let name ← k
    let w ← value? depth v
    return (name, w) :: (← memberValues depth ms)

end

/-- The fault of a source which is not of the expected kind: the token is read,
    an array or object is not entered. -/
def mismatchFault : Source → Fault
  | .number (.error f) | .string (.error f) => f
  | .broken b => b.whenRead
  | _ => .mismatch

end Source

end Json

end VectorIcon

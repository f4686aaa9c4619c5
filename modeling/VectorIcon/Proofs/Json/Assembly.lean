/-
  VectorIcon.Proofs.Json.Assembly
  ────────────────────────────────
  **THE TOKENS OF A VALUE ARE PUT TOGETHER TO THE VALUE.**

  A value stands for a row of tokens (`Value.tokens`) and for a source without
  faults (`Value.source`).  Wherever a value may stand, its tokens have the
  effect of delivering its source, whatever comes after them:

      assemble_tokens — by recursion on the value, with one statement for the
                        items and one for the members which are still to come
      value?_source   — from the source the value is read again, if it is not
                        nested too deep
-/
import VectorIcon.Json.Decode

namespace VectorIcon

namespace Json

/-! ## §1. Tokens and sources of a value. -/

namespace Value

mutual

/-- The tokens of a value. -/
def tokens : Value → List Token
  | .null => [.null]
  | .bool b => [.bool b]
  | .number n => [.number (.ok n)]
  | .string s => [.string (.ok s)]
  | .array [] => [.leftBracket, .rightBracket]
  | .array (v :: vs) => .leftBracket :: (tokens v ++ laterItems vs)
  | .object [] => [.leftBrace, .rightBrace]
  | .object ((k, v) :: ms) =>
    .leftBrace :: .string (.ok k) :: .colon :: (tokens v ++ laterMembers ms)

/-- The tokens of the items after the first one, and the end of the array. -/
def laterItems : List Value → List Token
  | [] => [.rightBracket]
  | v :: vs => .comma :: (tokens v ++ laterItems vs)

/-- The tokens of the members after the first one, and the end of the object. -/
def laterMembers : List (List Char × Value) → List Token
  | [] => [.rightBrace]
  | (k, v) :: ms => .comma :: .string (.ok k) :: .colon :: (tokens v ++ laterMembers ms)

end

mutual

/-- The source of a value. -/
def source : Value → Source
  | .null => .null
  | .bool b => .bool b
  | .number n => .number (.ok n)
  | .string s => .string (.ok s)
  | .array vs => .array (sources vs) none
  | .object ms => .object (memberSources ms) none

/-- The sources of items. -/
def sources : List Value → List Source
  | [] => []
  | v :: vs => source v :: sources vs

/-- The sources of members. -/
def memberSources : List (List Char × Value) → List (Key × Source)
  | [] => []
  | (k, v) :: ms => (.ok k, source v) :: memberSources ms

end

theorem sources_eq (vs : List Value) : sources vs = vs.map source := by
  induction vs with
  | nil => rfl
  | cons v vs ih => rw [sources, ih, List.map_cons]

mutual

/-- How deep arrays and objects are nested. -/
def height : Value → Nat
  | .array vs => heights vs + 1
  | .object ms => memberHeights ms + 1
  | _ => 0

/-- The greatest height of items. -/
def heights : List Value → Nat
  | [] => 0
  | v :: vs => max (height v) (heights vs)

/-- The greatest height of members. -/
def memberHeights : List (List Char × Value) → Nat
  | [] => 0
  | (_, v) :: ms => max (height v) (memberHeights ms)

end

end Value

/-! ## §2. Putting tokens together. -/

/-- What becomes of the rest of the tokens. -/
def Progress.proceed (p : Progress) (ts : List Token) : Document :=
  match p with
  | .open stack e => assemble stack e ts
  | .complete v => ⟨v, !ts.isEmpty⟩
  | .stopped v => ⟨v, false⟩

theorem assemble_cons (stack : List Container) (e : Expected) (t : Token) (ts : List Token) :
    assemble stack e (t :: ts) = (step stack e t).proceed ts := by
  rw [assemble]
  cases step stack e t <;> rfl

/-- Where a value may stand. -/
def Expected.IsValue (e : Expected) : Prop := e = .value ∨ e = .itemOrEnd

/-- A token which is a value or begins one. -/
def Token.StartsValue : Token → Prop
  | .rightBracket => False
  | _ => True

theorem step_value {stack : List Container} {e : Expected} (he : e.IsValue) (t : Token)
    (ht : t.StartsValue) : step stack e t = stepValue stack t := by
  rcases he with rfl | rfl
  · cases t <;> rfl
  · cases t with
    | rightBracket => exact ht.elim
    | _ => rfl

mutual

/-- **The tokens of a value deliver its source.** -/
theorem assemble_tokens (v : Value) {stack : List Container} {e : Expected} (he : e.IsValue)
    (more : List Token) :
    assemble stack e (v.tokens ++ more) = (deliver stack v.source).proceed more := by
  match v with
  | .null | .bool _ | .number _ | .string _ =>
    rw [Value.tokens, Value.source, List.singleton_append, assemble_cons, step_value he]
    · rfl
    · trivial
  | .array [] =>
    rw [Value.tokens, Value.source, List.cons_append, assemble_cons, step_value he .leftBracket trivial]
    exact assemble_cons (.array [] :: stack) .itemOrEnd .rightBracket more
  | .array (v :: vs) =>
    rw [Value.tokens, Value.source, Value.sources, List.cons_append, List.append_assoc, assemble_cons,
      step_value he .leftBracket trivial]
    show assemble (.array [] :: stack) .itemOrEnd _ = _
    rw [assemble_tokens v (.inr rfl)]
    exact assemble_laterItems vs [v.source] stack more
  | .object [] =>
    rw [Value.tokens, Value.source, List.cons_append, assemble_cons, step_value he .leftBrace trivial]
    exact assemble_cons (.object [] none :: stack) .keyOrEnd .rightBrace more
  | .object ((k, v) :: ms) =>
    rw [Value.tokens, Value.source, Value.memberSources, List.cons_append, assemble_cons,
      step_value he .leftBrace trivial]
    show assemble (.object [] none :: stack) .keyOrEnd (.string (.ok k) :: .colon :: (v.tokens ++ _ ++ more)) = _
    rw [assemble_cons]
    show assemble (.object [] (some (.ok k)) :: stack) .colon _ = _
    rw [assemble_cons, List.append_assoc]
    show assemble (.object [] (some (.ok k)) :: stack) .value _ = _
    rw [assemble_tokens v (.inl rfl)]
    exact assemble_laterMembers ms [(.ok k, v.source)] stack more

/-- The items which are still to come, with those which are there latest first. -/
theorem assemble_laterItems (vs : List Value) (items : List Source) (stack : List Container)
    (more : List Token) :
    assemble (.array items :: stack) .next (Value.laterItems vs ++ more) =
      (deliver stack (.array (items.reverse ++ Value.sources vs) none)).proceed more := by
  match vs with
  | [] =>
    rw [Value.laterItems, Value.sources, List.append_nil]
    exact assemble_cons (.array items :: stack) .next .rightBracket more
  | v :: vs =>
    rw [Value.laterItems, Value.sources, List.cons_append, List.append_assoc, assemble_cons]
    show assemble (.array items :: stack) .value _ = _
    rw [assemble_tokens v (.inl rfl)]
    show assemble (.array (v.source :: items) :: stack) .next _ = _
    rw [assemble_laterItems vs (v.source :: items) stack more, List.reverse_cons, List.append_assoc]
    rfl

/-- The members which are still to come, with those which are there latest
    first. -/
theorem assemble_laterMembers (ms : List (List Char × Value)) (members : List (Key × Source))
    (stack : List Container) (more : List Token) :
    assemble (.object members none :: stack) .next (Value.laterMembers ms ++ more) =
      (deliver stack (.object (members.reverse ++ Value.memberSources ms) none)).proceed more := by
  match ms with
  | [] =>
    rw [Value.laterMembers, Value.memberSources, List.append_nil]
    exact assemble_cons (.object members none :: stack) .next .rightBrace more
  | (k, v) :: ms =>
    rw [Value.laterMembers, Value.memberSources, List.cons_append, assemble_cons]
    show assemble (.object members none :: stack) .key
      (.string (.ok k) :: .colon :: (v.tokens ++ Value.laterMembers ms ++ more)) = _
    rw [assemble_cons]
    show assemble (.object members (some (.ok k)) :: stack) .colon _ = _
    rw [assemble_cons, List.append_assoc]
    show assemble (.object members (some (.ok k)) :: stack) .value _ = _
    rw [assemble_tokens v (.inl rfl)]
    show assemble (.object ((.ok k, v.source) :: members) none :: stack) .next _ = _
    rw [assemble_laterMembers ms ((.ok k, v.source) :: members) stack more, List.reverse_cons,
      List.append_assoc]
    rfl

end

/-! ## §3. Reading the value again. -/

namespace Source

mutual

/-- **The value of the source of a value** is that value. -/
theorem value?_source (v : Value) {depth : Nat} (h : v.height < depth) :
    value? depth v.source = .ok v := by
  match v with
  | .null | .bool _ | .number _ | .string _ =>
    rw [Value.source, value?]
    rfl
  | .array vs =>
    rw [Value.height] at h
    rw [Value.source, value?, if_neg (by omega), itemValues_sources vs (by omega)]
    rfl
  | .object ms =>
    rw [Value.height] at h
    rw [Value.source, value?, if_neg (by omega), memberValues_sources ms (by omega)]
    rfl

theorem itemValues_sources (vs : List Value) {depth : Nat} (h : Value.heights vs < depth) :
    itemValues depth (Value.sources vs) = .ok vs := by
  match vs with
  | [] => rfl
  | v :: vs =>
    rw [Value.heights] at h
    rw [Value.sources, itemValues, value?_source v (by omega), itemValues_sources vs (by omega)]
    rfl

theorem memberValues_sources (ms : List (List Char × Value)) {depth : Nat}
    (h : Value.memberHeights ms < depth) :
    memberValues depth (Value.memberSources ms) = .ok ms := by
  match ms with
  | [] => rfl
  | (k, v) :: ms =>
    rw [Value.memberHeights] at h
    rw [Value.memberSources, memberValues, value?_source v (by omega),
      memberValues_sources ms (by omega)]
    rfl

end

end Source

end Json

end VectorIcon

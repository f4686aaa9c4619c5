/-
  VectorIcon.Xml.Document
  ────────────────────────────────
  **THE ELEMENT TREE OF A DOCUMENT.**

  The tokens of a document are put together on a stack of open elements.  An end
  tag closes the innermost open element and has to repeat its name; around the
  one root element only comments, processing instructions and white space may
  stand.

  A qualifier has to be bound by a namespace declaration of its element or of an
  element around it.  Two attributes of an element may not have the same name
  in the same namespace.
-/
import VectorIcon.Xml.Reference

namespace VectorIcon

namespace Xml

/-! ## §1. Trees. -/

/-- An attribute whose qualifier is resolved. -/
structure Attribute where
  /-- The namespace, none for an attribute without qualifier. -/
  space : Option String
  name : String
  value : List Char
deriving DecidableEq, Repr, Inhabited

/-- A node of the tree.  The name of an element is its local name. -/
inductive Node where
  | element (name : String) (attributes : List Attribute) (children : List Node)
  | text (content : List Char)
  | comment (content : List Char)
  | instruction (target content : List Char)
deriving Inhabited

/-- The value of the attribute without qualifier. -/
def attribute? (attributes : List Attribute) (name : String) : Option (List Char) :=
  (attributes.find? fun a => a.space.isNone && a.name == name).map (·.value)

/-! ## §2. Namespaces. -/

/-- A namespace which markup itself defines. -/
def standardSpace (path : String) : String := "http://www.w3.org/" ++ path

/-- The namespace of the qualifier `xml`. -/
def xmlSpace : String := standardSpace "XML/1998/namespace"

/-- The namespace of the qualifier `xmlns`. -/
def xmlnsSpace : String := standardSpace "2000/xmlns/"

/-- A qualifier and the namespace it stands for. -/
structure Binding where
  qualifier : List Char
  space : String
deriving DecidableEq, Repr, Inhabited

/-- What the attributes of a start tag amount to so far. -/
structure Declared where
  /-- Bindings of this tag. -/
  bindings : List Binding
  /-- Attributes which are no declarations, with their values. -/
  plain : List (QName × List Char)

/-- Take in one attribute of a tag.  The qualifier `xml` belongs to its own
    namespace and no other one does, nothing may be bound to the namespace of
    `xmlns`, and a tag binds a qualifier once. -/
def declare (d : Declared) (a : RawAttribute) : Except Fault Declared := do
  let value ← expandValue a.value
  let space := String.ofList value
  if a.name.qualifier = "xmlns".toList then
    if space = xmlnsSpace then throw .reservedNamespace
    if (a.name.localName = "xml".toList) ≠ (space = xmlSpace) then throw .reservedNamespace
    if d.bindings.any (·.qualifier = a.name.localName) then throw .duplicateNamespace
    if space = xmlSpace then return d
    return { d with bindings := d.bindings ++ [⟨a.name.localName, space⟩] }
  else if a.name.localName = "xmlns".toList then
    if space = xmlSpace ∨ space = xmlnsSpace then throw .reservedNamespace
    return d
  else return { d with plain := d.plain ++ [(a.name, value)] }

/-- The namespace which a qualifier is bound to. -/
def lookup (bindings : List Binding) (qualifier : List Char) : Except Fault String :=
  match bindings.find? (·.qualifier = qualifier) with
  | some b => .ok b.space
  | none => .error .unboundQualifier

/-- Resolve the qualifier of an attribute. -/
def resolveAttribute (bindings : List Binding) (a : QName × List Char) : Except Fault Attribute := do
  let name := String.ofList a.1.localName
  if a.1.qualifier.isEmpty then return ⟨none, name, a.2⟩
  else if a.1.qualifier = "xml".toList then return ⟨some xmlSpace, name, a.2⟩
  else return ⟨some (← lookup bindings a.1.qualifier), name, a.2⟩

/-- Resolve attributes and check that no two have the same name. -/
def resolveAttributes (bindings : List Binding) :
    List (QName × List Char) → Except Fault (List Attribute)
  | [] => .ok []
  | a :: as => do
    let a ← resolveAttribute bindings a
    let as ← resolveAttributes bindings as
    if as.any fun b => b.space = a.space && b.name = a.name then throw .duplicateAttribute
    return a :: as

/-! ## §3. Building the tree. -/

/-- An element whose end tag is still to come. -/
structure OpenElement where
  name : QName
  attributes : List Attribute
  /-- The bindings inside of the element, the innermost ones first. -/
  bindings : List Binding
  /-- The children so far, the latest one first. -/
  children : List Node

/-- The state between two tokens. -/
structure Builder where
  /-- The open elements, the innermost one first. -/
  stack : List OpenElement
  /-- The root element, once it is complete. -/
  root : Option Node

namespace Builder

/-- Nothing is read. -/
def empty : Builder := ⟨[], none⟩

/-- Add a complete node. -/
def add (b : Builder) (n : Node) : Builder :=
  match b.stack with
  | e :: es => { b with stack := { e with children := n :: e.children } :: es }
  | [] => b

/-- Add a complete element, which is the root if no element is open. -/
def addElement (b : Builder) (n : Node) : Except Fault Builder :=
  match b.stack, b.root with
  | [], none => .ok { b with root := some n }
  | [], some _ => .error .outsideRoot
  | _ :: _, _ => .ok (b.add n)

/-- The node of an open element. -/
def node (e : OpenElement) : Node :=
  .element (String.ofList e.name.localName) e.attributes e.children.reverse

/-- The element of a start tag. -/
def openElement (b : Builder) (name : QName) (raw : List RawAttribute) :
    Except Fault OpenElement := do
  if name.qualifier = "xmlns".toList then throw .reservedNamespace
  let declared ← raw.foldlM declare ⟨[], []⟩
  let inherited := match b.stack with
    | e :: _ => e.bindings
    | [] => []
  let bindings := declared.bindings ++ inherited
  let attributes ← resolveAttributes bindings declared.plain
  if !name.qualifier.isEmpty then
    let _ ← lookup bindings name.qualifier
  return ⟨name, attributes, bindings, []⟩

/-- Take in a token. -/
def step (b : Builder) : Token → Except Fault Builder
  | .startTag name raw endsElement => do
    let e ← b.openElement name raw
    if endsElement then b.addElement (node e)
    else if b.stack.isEmpty && b.root.isSome then .error .outsideRoot
    else return { b with stack := e :: b.stack }
  | .endTag name =>
    match b.stack with
    | [] => .error .outsideRoot
    | e :: es =>
      if e.name = name then { b with stack := es }.addElement (node e) else .error .mismatchedTag
  | .text raw =>
    if b.stack.isEmpty then
      if raw.all isSpace then .ok b else .error .outsideRoot
    else do return b.add (.text (← expandText raw))
  | .cdata content => if b.stack.isEmpty then .error .outsideRoot else .ok (b.add (.text content))
  | .comment content => .ok (b.add (.comment content))
  | .instruction target content => .ok (b.add (.instruction target content))

end Builder

/-- The root element of a document. -/
def parse (s : List Char) : Except Fault Node := do
  let ts ← tokens s
  let b ← ts.foldlM Builder.step Builder.empty
  if !b.stack.isEmpty then throw .unclosedElement
  match b.root with
  | some n => return n
  | none => throw .missingRoot

end Xml

end VectorIcon

import BindingTree.Build.Draft

/-! From records to elements. Each accepted record becomes one element below the element of its
parent; a record that its place does not accept is reported and left out with all that is below
it. Types and namespaces are entered in the index after what is below them. -/

namespace BindingTree.Build

open Naming

/-- Whether an element of a kind may have a record with a tag below it. -/
def accepts : Kind → Tag → Bool
  | .ns, t => t ∈ [Tag.cls, .iface]
  | .cls, t => t ∈ [Tag.field, .ctor, .method, .implements, .typeParam]
  | .iface, t => t ∈ [Tag.field, .method, .implements, .typeParam]
  | .enum, t => t ∈ [Tag.field, .method]
  | .method, t | .ctor, t => t ∈ [Tag.param, .typeParam, .exception]
  | .typeParam, t => t = .constraint
  | _, _ => false

/-- A type reference as the name of a base type; an empty one names none. -/
def baseName? (reference : String) : Option String :=
  let name := eraseReference reference
  if name = "" then none else some name

/-- What an element holds for a record's content. -/
def payload? : Content → Option Payload
  | .ns i => some (.ns i)
  | .cls i => some (.type .cls { info := i.type, baseNames := (i.base.bind baseName?).toList })
  | .iface i => some (.type .iface { info := i })
  | .enum i => some (.type .enum { info := i, basesFixed := true })
  | .field i => some (.field i)
  | .ctor i => some (.ctor i)
  | .method i => some (.method i)
  | .implements i => some (.implements i)
  | .typeParam i => some (.typeParam i)
  | .constraint i => some (.constraint i)
  | .param i => some (.param i)
  | .exception i => some (.exception i)
  | .unsupported => none

/-- The attribute under which the file that a record was merged from is kept. -/
def mergeSourceKey : String := "merge.SourceFile"

/-- The element of a record, named within its place. -/
def ofHead (head : Record.Head) (payload : Payload) (name fullName : String) : Element where
  payload
  name
  fullName
  givenName := head.managedName.filter (· ≠ "")
  genericName := head.genericName
  jniSignature := head.jniSignature
  location := head.location
  deprecation := head.deprecation
  apiSince := head.apiSince
  apiUntil := head.apiUntil
  comments := if head.location.isKnown then [head.location.text] else []
  attributes := match head.mergeSource with
    | some source => head.attributes.insert mergeSourceKey source
    | none => head.attributes
  isBound := true

/-- The name of a record below `owner`: a namespace takes its own name off the front. -/
def nameBelow (h : Hierarchy) (owner : Owner) (name : String) : String :=
  match owner with
  | .element p =>
    if h.kind p = .ns then (stripQualifier? (h.fullName p) name).getD name else name
  | _ => name

/-- Makes the element of a record under an owner. -/
def create (head : Record.Head) (owner : Owner) : Build ElementId :=
  match payload? head.content with
  | none => fail (.invalidElement (.noKind head.name))
  | some payload => do
    let h ← hierarchy
    let name := nameBelow h owner head.name
    let id ← make (ofHead head payload name (h.composeFullName owner name))
    match owner with
    | .element p => addMember p id
    | _ => pure ()
    return id

/-- Adds a name to those of a type's base types, unless it is there. -/
def addBaseName (name : String) (facts : TypeFacts) : TypeFacts :=
  if name ∈ facts.baseNames then facts else { facts with baseNames := facts.baseNames ++ [name] }

/-- Hands the name of an interface that a type implements on to the type. -/
def inherit (type : ElementId) (head : Record.Head) : Build Unit :=
  match head.content.tag, baseName? head.name with
  | .implements, some name => editElement type (Element.withFacts (addBaseName name))
  | _, _ => pure ()

mutual

/-- Takes in a record below `parent`, and all that is below it. -/
def ingestChild (parent : ElementId) : Record → Build Unit
  | ⟨head, children⟩ => do
    let owner ← element parent
    if accepts owner.kind head.content.tag then
      let id ← create head (.element parent)
      inherit parent head
      ingestChildren id children
      if (← element id).isType then addNative id
    else
      notice (.unsupported head.name head.content.tag (.under owner.kind owner.fullName))

def ingestChildren (parent : ElementId) : List Record → Build Unit
  | [] => pure ()
  | r :: rs => do
    ingestChild parent r
    ingestChildren parent rs

end

def ingestNamespace (r : Record) : Build Unit := do
  let id ← create r.head .root
  edit (·.listNamespace id)
  ingestChildren id r.children
  addNative id

/-- Takes in an enum of the top level. Its name is the full one, and it stays at the top until
managed names are known. -/
def ingestEnum (r : Record) : Build Unit := do
  if r.name.toList.head? = some '.' then fail (.invalidElement (.leadingDot r.name))
  let id ← create r.head .root
  editElement id fun e => { e with name := (splitLast r.name).2 }
  edit (·.listEnum id)
  ingestChildren id r.children
  addNative id

def ingest (rs : List Record) : Build Unit :=
  rs.forM fun r => match r.tag with
    | .ns => ingestNamespace r
    | .enum => ingestEnum r
    | tag => notice (.unsupported r.name tag .top)

end BindingTree.Build

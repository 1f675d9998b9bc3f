import BindingTree.Build.Draft

/-! Making sure that the types which default base types point at are there. What has to be made
for that is ignored by the code generator. -/

namespace BindingTree.Build

open Naming

/-- Makes a namespace at the top. -/
def makeNamespace (name : String) : Build ElementId := do
  let id ← make { Element.fresh (.ns {}) name with ignored := true }
  edit (·.listNamespace id)
  enter id
  return id

/-- Makes a type of a namespace that has no base types and no invoker. -/
def makeType (ns : ElementId) (kind : TypeKind) (fullName : String) (useGlobal : Bool) :
    Build Unit := do
  let payload := .type kind { basesFixed := true, needsNoInvoker := true }
  let id ← make { Element.fresh payload (splitLast fullName).2 with
    fullName, ignored := true, useGlobal }
  addMember ns id
  enter id

/-- The namespace for types that support generated code; its managed name is given. -/
def runtimeNamespace (name : String) : Build ElementId := do
  match (← hierarchy).findNamespaceIgnoringCase? name with
  | some ns => return ns
  | none =>
    let ns ← makeNamespace name
    editElement ns fun e => { e with givenName := some name }
    return ns

/-- Whether a namespace has an interface with a full name, in any ASCII case. -/
def hasInterface (h : Hierarchy) (ns : ElementId) (fullName : String) : Bool :=
  (h.members ns).any fun i =>
    h.kind i = .iface && Hierarchy.sameIgnoringCase (h.fullName i) fullName

/-- The namespace of the root type: that of its qualifier, or one of its own name. -/
def rootNamespace (rootType : String) : Build ElementId := do
  match (splitLast rootType).1 with
  | some name => match (← hierarchy).findNamespace? name with
    | some ns => return ns
    | none => makeNamespace name
  | none => makeNamespace rootType

/-- Makes the root type unless a class has its name. -/
def ensureRootType (rootType : String) : Build Unit := do
  let found := (← index).lookup? rootType (some .cls)
  unless found.any (·.kind.isClass) do
    makeType (← rootNamespace rootType) .cls rootType false

def bootstrap (s : Settings) : Build Unit := do
  let runtime ← runtimeNamespace s.runtimeNamespace
  unless hasInterface (← hierarchy) runtime s.baseInterface do
    makeType runtime .iface s.baseInterface true
  if s.makeRootType then ensureRootType s.rootType

end BindingTree.Build

import BindingTree.Build.Draft

/-! Managed names. A name given by the record stands as it is; any other is translated by the rule
for the element's kind. Full managed names go on from the owner's. -/

namespace BindingTree.Build

open Naming

/-- Translates the native name of an element of a kind. -/
def translateAs (t : Translator) (kind : Kind) (name : String) : Except Failure String :=
  match kind with
  | .iface => interfaceName <$> t.translate name
  | .invoker => invokerName <$> t.translate name
  | .field => t.translateField name
  | .implements | .exception | .constraint => t.translate (eraseReference name)
  | _ => t.translate name

def managedNameOf (t : Translator) (e : Element) : Except Failure String :=
  match e.givenName with
  | some name => .ok name
  | none => translateAs t e.kind e.name

/-- Namespaces do not nest by name, whatever stands above them. -/
def fullManagedNameOf (h : Hierarchy) (i : ElementId) (managed : String) : String :=
  if h.kind i = .ns then managed else h.composeFullManagedName (h.owner i) managed

/-- Names one element from its owner's full managed name, and enters types and namespaces. -/
def assignManagedName (t : Translator) (i : ElementId) : Build Unit := do
  let h ← hierarchy
  let managed ← ofExcept (managedNameOf t (h.element i))
  editElement i fun e =>
    { e with managedName := some managed, fullManagedName := some (fullManagedNameOf h i managed) }
  if (h.element i).isType || h.kind i = .ns then addManaged i

/-- Names an element and everything below it, owners before members. -/
def assignManagedNamesFrom (t : Translator) (i : ElementId) : Build Unit := do
  ((← hierarchy).walk i).forM (assignManagedName t)

def assignManagedNames (t : Translator) : Build Unit := do
  (← hierarchy).walkAll.forM (assignManagedName t)

end BindingTree.Build

import BindingTree.Hierarchy.Moves
import BindingTree.Hierarchy.Names
import BindingTree.Hierarchy.Search
import BindingTree.Index.Registry
import BindingTree.Naming.Affix

/-! A hierarchy under construction. The passes of a build work on a draft one after the other; a
pass that fails leaves the draft as far as it came, so that what was noticed is not lost. -/

namespace BindingTree

open Naming (Translator)

/-- What a build goes by. -/
structure Plan where
  settings : Settings
  translator : Translator

structure Draft where
  hierarchy : Hierarchy := {}
  registry : Registry

abbrev Build := EStateM Failure Draft

namespace Build

def hierarchy : Build Hierarchy := return (← get).hierarchy

def index : Build Index := return (← get).registry.index

def element (i : ElementId) : Build Element := return (← hierarchy).element i

def fail {α : Type} (failure : Failure) : Build α := throw failure

def edit (f : Hierarchy → Hierarchy) : Build Unit :=
  modify fun d => { d with hierarchy := f d.hierarchy }

/-- Changes an element in its place. -/
def editElement (i : ElementId) (f : Element → Element) : Build Unit := edit (·.modify i f)

def notice (n : Notice) : Build Unit :=
  modify fun d => { d with registry := d.registry.notice n }

/-- Works on the registry alone. -/
def onRegistry {α : Type} (m : EStateM Failure Registry α) : Build α := fun d =>
  match m d.registry with
  | .ok a registry => .ok a { d with registry }
  | .error failure registry => .error failure { d with registry }

/-- Works on the hierarchy alone. -/
def onHierarchy {α : Type} (m : EStateM Failure Hierarchy α) : Build α := fun d =>
  match m d.hierarchy with
  | .ok a hierarchy => .ok a { d with hierarchy }
  | .error failure hierarchy => .error failure { d with hierarchy }

def ofExcept {α : Type} : Except Failure α → Build α
  | .ok a => pure a
  | .error failure => fail failure

/-- Makes an element that stands at the top without being listed there. -/
def make (e : Element) : Build ElementId := do
  let id := (← hierarchy).size
  edit (·.push e)
  return id

def addMember (parent child : ElementId) : Build Unit := do
  let h ← ofExcept ((← hierarchy).addMember parent child)
  edit fun _ => h

def addNative (i : ElementId) : Build Unit := do onRegistry (Registry.addNative i (← element i))

def addManaged (i : ElementId) : Build Unit := do onRegistry (Registry.addManaged i (← element i))

/-- Enters an element into the index under all its names. -/
def enter (i : ElementId) : Build Unit := do onRegistry (Registry.add i (← element i))

/-- Removes an element from under a key of a table. -/
def remove (t : Table) (key : String) (i : ElementId) : Build Unit := do
  let e ← element i
  modify fun d => { d with registry := (Registry.remove t key i e d.registry).1 }

/-- Looks a name up on behalf of an element. -/
def lookup (name : String) (hint : Option Kind) (onBehalfOf : Element) : Build ElementId := do
  ofExcept ((← index).lookup name hint (some onBehalfOf))

end Build

end BindingTree

import BindingTree.Hierarchy.Walk
import BindingTree.Naming.Translator

/-! Names that follow from places: the full name of a member goes on from its owner's. -/

namespace BindingTree.Hierarchy

open Naming (Translator)

/-- The full native name of a member called `name`. -/
def composeFullName (h : Hierarchy) (owner : Owner) (name : String) : String :=
  match owner with
  | .element p => h.fullName p ++ "." ++ name
  | _ => name

/-- The full managed name of a member called `managed`. -/
def composeFullManagedName (h : Hierarchy) (owner : Owner) (managed : String) : String :=
  match owner with
  | .element p =>
    let text := (h.element p).fullManagedText
    if text = "" then managed else text ++ "." ++ managed
  | _ => managed

/-- The names of an element's owners and its own, from the top down, joined by dots. -/
def chainFullName (h : Hierarchy) (i : ElementId) : String :=
  ".".intercalate ((i :: h.ancestors i).reverse.map fun j => (h.element j).name)

/-- A managed name that is there, or the capitalized form of the native one. -/
def managedOrDerived (managed : Option String) (native : String) : Except Failure String :=
  match managed with
  | some m => if m = "" then (Translator.plain true).translate native else .ok m
  | none => (Translator.plain true).translate native

def managedNameOrDerived (h : Hierarchy) (i : ElementId) : Except Failure String :=
  managedOrDerived (h.element i).managedName (h.element i).name

def fullManagedNameOrDerived (h : Hierarchy) (i : ElementId) : Except Failure String :=
  managedOrDerived (h.element i).fullManagedName (h.element i).fullName

end BindingTree.Hierarchy

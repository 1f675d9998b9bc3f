import BindingTree.Diagnostic
import BindingTree.Index.Basic

/-! An index with the log of what was noticed in filling it. -/

namespace BindingTree

structure Registry where
  index : Index
  log : List Notice := []

namespace Registry

def empty (policy : ClashPolicy) : Registry := { index := { policy } }

def notice (n : Notice) (r : Registry) : Registry := { r with log := r.log ++ [n] }

/-- Enters an element into a table under a key. -/
def insert (t : Table) (key : String) (entry : Entry) : EStateM Failure Registry Unit := fun r =>
  match r.index.insert t key entry with
  | .error failure => .error failure r
  | .ok (index, none) => .ok () { r with index }
  | .ok (index, some clash) => .ok () ({ r with index }.notice (.clash clash))

def addNative (id : ElementId) (e : Element) : EStateM Failure Registry Unit :=
  insert .native e.fullName ⟨id, e.kind⟩

/-- Enters an element under its full managed name, if it has one. -/
def addManaged (id : ElementId) (e : Element) : EStateM Failure Registry Unit :=
  if e.fullManagedText = "" then pure () else insert .managed e.fullManagedText ⟨id, e.kind⟩

/-- Enters an element into both tables, the native one first. -/
def add (id : ElementId) (e : Element) : EStateM Failure Registry Unit := do
  addNative id e
  addManaged id e

/-- Removes an element from under a key of a table, and tells whether it was there. -/
def remove (t : Table) (key : String) (id : ElementId) (e : Element) (r : Registry) :
    Registry × Bool :=
  let (index, found) := r.index.remove t key ⟨id, e.kind⟩
  ({ r with index }, found)

def diagnostics (r : Registry) : List Diagnostic := r.log.map Notice.diagnostic

end Registry

end BindingTree

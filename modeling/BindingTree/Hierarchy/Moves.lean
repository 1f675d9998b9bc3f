import BindingTree.Hierarchy.Edit
import BindingTree.KeyedList

/-! Moves that are planned against an unchanged hierarchy and made together, in the order in which
the elements were first planned for. -/

namespace BindingTree

/-- New owners by element. -/
abbrev Moves := KeyedList ElementId ElementId

namespace Moves

/-- Plans for an element; an earlier plan gives way. -/
def plan (m : Moves) (element parent : ElementId) : Moves := m.put element parent

def target? (m : Moves) (element : ElementId) : Option ElementId := m.get? element

/-- A call that plans for an element. It answers with the owner planned for the element before. -/
def planCall (element parent : ElementId) : StateM Moves (Option ElementId) :=
  modifyGet fun m => (m.target? element, m.plan element parent)

/-- Makes moves one by one. A failure leaves the moves before it in place. -/
def makeAll : List (ElementId × ElementId) → EStateM Failure Hierarchy Unit
  | [] => pure ()
  | (element, parent) :: rest => fun h =>
    match h.addMember parent element with
    | .ok h => makeAll rest h
    | .error failure => .error failure h

/-- Makes the planned moves and gives the elements that were moved. -/
def apply (m : Moves) : EStateM Failure Hierarchy (List ElementId) := do
  makeAll m.entries
  return m.keys

end Moves

end BindingTree

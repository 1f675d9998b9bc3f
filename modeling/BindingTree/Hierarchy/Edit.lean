import BindingTree.Failure
import BindingTree.Hierarchy.Walk

/-! Moving elements about. An element has one owner at a time, and none that stands below it. -/

namespace BindingTree.Hierarchy

/-- Takes an element from its owner, or from the namespaces at the top. -/
def detach (h : Hierarchy) (i : ElementId) : Hierarchy :=
  let taken := match h.owner i with
    | .element p => h.setMembers p (·.filter (· ≠ i))
    | .root => { h with namespaces := h.namespaces.filter (· ≠ i) }
    | .detached => h
  taken.setOwner i .detached

/-- Puts an element under an owner, as its last member. -/
def attach (h : Hierarchy) (owner i : ElementId) : Hierarchy :=
  (h.setMembers owner (· ++ [i])).setOwner i (.element owner)

/-- Moves `child` under `parent`, unless `parent` stands below `child`. -/
def addMember (h : Hierarchy) (parent child : ElementId) : Except Failure Hierarchy :=
  if parent = child ∨ child ∈ h.ancestors parent then
    .error (.invalidElement (.cycle (h.fullName child) (h.fullName parent)))
  else .ok ((h.detach child).attach parent child)

/-- Takes `child` from `parent`, if it is one of its members. -/
def removeMember (h : Hierarchy) (parent child : ElementId) : Option Hierarchy :=
  if h.owner child = .element parent then some (h.detach child) else none

end BindingTree.Hierarchy

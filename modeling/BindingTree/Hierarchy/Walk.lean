import BindingTree.Hierarchy.Basic

/-! Walking a hierarchy: up to the owners and down through the members. No chain of owners is
longer than there are elements, so the size bounds both walks. -/

namespace BindingTree.Hierarchy

/-- The first `n` owners of an element, nearest first. -/
def ownersUpTo (h : Hierarchy) : Nat → ElementId → List ElementId
  | 0, _ => []
  | n + 1, i => match h.owner i with
    | .element p => p :: h.ownersUpTo n p
    | _ => []

/-- The chain of owners of an element, nearest first. -/
def ancestors (h : Hierarchy) (i : ElementId) : List ElementId := h.ownersUpTo h.size i

/-- An element and what stands below it within `n` levels, owners before members. -/
def walkTo (h : Hierarchy) : Nat → ElementId → List ElementId
  | 0, _ => []
  | n + 1, i => i :: (h.members i).flatMap (h.walkTo n)

/-- An element and everything below it, owners before members. -/
def walk (h : Hierarchy) (i : ElementId) : List ElementId := h.walkTo h.size i

/-- Everything below the top: the namespaces first, then the enums that stand there. -/
def walkAll (h : Hierarchy) : List ElementId := (h.namespaces ++ h.rootEnums).flatMap h.walk

/-- The types below the top. -/
def types (h : Hierarchy) : List ElementId := h.walkAll.filter fun i => (h.element i).isType

/-- How many elements of a kind stand below the top. -/
def count (h : Hierarchy) (k : Kind) : Nat := (h.walkAll.filter fun i => h.kind i = k).length

end BindingTree.Hierarchy

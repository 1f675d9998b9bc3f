import BindingTree.Hierarchy.Walk

/-! Finding elements by their names. Of several matches the first in the order of the walk
counts. -/

namespace BindingTree.Hierarchy

/-- Whether two texts agree when ASCII letters are lowered. -/
def sameIgnoringCase (a b : String) : Bool :=
  a.toList.map Char.toLower = b.toList.map Char.toLower

def findNamespace? (h : Hierarchy) (name : String) : Option ElementId :=
  h.namespaces.find? fun i => h.fullName i = name

/-- The namespace at the top with the given native or managed name, in any ASCII case. -/
def findNamespaceIgnoringCase? (h : Hierarchy) (name : String) : Option ElementId :=
  h.namespaces.find? fun i =>
    let e := h.element i
    sameIgnoringCase e.fullName name || e.fullManagedName.any (sameIgnoringCase · name)

def findByFullName? (h : Hierarchy) (name : String) : Option ElementId :=
  h.walkAll.find? fun i => h.fullName i = name

def findByFullManagedName? (h : Hierarchy) (name : String) : Option ElementId :=
  h.walkAll.find? fun i => (h.element i).fullManagedName = some name

def findMember? (h : Hierarchy) (parent : ElementId) (name : String) : Option ElementId :=
  (h.members parent).find? fun i => (h.element i).name = name

end BindingTree.Hierarchy

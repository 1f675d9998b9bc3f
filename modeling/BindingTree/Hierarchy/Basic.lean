import BindingTree.Element.Basic

/-! Hierarchies: elements linked by ownership. An owner lists its members, a member names its
owner, and the top is listed apart: the namespaces that stand there, and every enum that came from
the top level of a description, wherever it stands now. -/

namespace BindingTree

inductive Owner where
  /-- The top of the hierarchy. -/
  | root
  | element (id : ElementId)
  /-- Taken out of the hierarchy. -/
  | detached
  deriving DecidableEq, Repr, Inhabited

def Owner.element? : Owner → Option ElementId
  | .element id => some id
  | _ => none

/-- An element with its place. -/
structure Node where
  element : Element
  owner : Owner
  members : List ElementId
  deriving Repr

/-- What stands for an identifier that no element has. -/
def Node.none : Node := ⟨default, .detached, []⟩

structure Hierarchy where
  nodes : Array Node := #[]
  namespaces : List ElementId := []
  /-- The enums of the top level, in the order in which they came. -/
  enums : List ElementId := []
  deriving Repr, Inhabited

namespace Hierarchy

/-- The number of elements ever made. -/
def size (h : Hierarchy) : Nat := h.nodes.size

def node (h : Hierarchy) (i : ElementId) : Node := h.nodes[i]?.getD Node.none

def element (h : Hierarchy) (i : ElementId) : Element := (h.node i).element

def owner (h : Hierarchy) (i : ElementId) : Owner := (h.node i).owner

def members (h : Hierarchy) (i : ElementId) : List ElementId := (h.node i).members

def kind (h : Hierarchy) (i : ElementId) : Kind := (h.element i).kind

def fullName (h : Hierarchy) (i : ElementId) : String := (h.element i).fullName

def ids (h : Hierarchy) : List ElementId := List.range h.size

/-- Makes an element that stands at the top without being listed there; its identifier is the
former size. -/
def push (h : Hierarchy) (e : Element) : Hierarchy :=
  { h with nodes := h.nodes.push ⟨e, .root, []⟩ }

def modifyNode (h : Hierarchy) (i : ElementId) (f : Node → Node) : Hierarchy :=
  { h with nodes := h.nodes.modify i f }

/-- Changes an element and leaves its place alone. -/
def modify (h : Hierarchy) (i : ElementId) (f : Element → Element) : Hierarchy :=
  h.modifyNode i fun n => { n with element := f n.element }

def setOwner (h : Hierarchy) (i : ElementId) (o : Owner) : Hierarchy :=
  h.modifyNode i fun n => { n with owner := o }

def setMembers (h : Hierarchy) (i : ElementId) (f : List ElementId → List ElementId) :
    Hierarchy :=
  h.modifyNode i fun n => { n with members := f n.members }

/-- Lists a namespace at the top. -/
def listNamespace (h : Hierarchy) (i : ElementId) : Hierarchy :=
  let h := h.setOwner i .root
  if i ∈ h.namespaces then h else { h with namespaces := h.namespaces ++ [i] }

/-- Lists an enum of the top level. -/
def listEnum (h : Hierarchy) (i : ElementId) : Hierarchy :=
  if i ∈ h.enums then h else { h with enums := h.enums ++ [i] }

/-- The enums that still stand at the top. -/
def rootEnums (h : Hierarchy) : List ElementId := h.enums.filter (h.owner · = .root)

end Hierarchy

end BindingTree

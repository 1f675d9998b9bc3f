import BindingTree.Hierarchy.Edit
import Mathlib.Tactic.Common

/-! What each edit of a hierarchy does to its view: the size, the element, owner and members of an
identifier, and the two lists at the top. Growth takes three forms, a namespace or an enum at the
top and an element below an owner; later modules never open the array of nodes. -/

namespace BindingTree.Hierarchy

variable {h : Hierarchy} {i j p : ElementId} {e : Element}

/-! ### Pushing and changing nodes -/

theorem node_of_size_le (hi : h.size ≤ i) : h.node i = Node.none := by
  unfold node
  rw [Array.getElem?_eq_none hi]
  rfl

/-- Only namespaces have the kind of an element that is not there. -/
theorem lt_size_of_kind_ne (hk : h.kind i ≠ .ns) : i < h.size := by
  by_contra hnot
  refine hk ?_
  rw [kind, element, node_of_size_le (Nat.not_lt.1 hnot)]
  rfl

theorem owner_of_size_le (hi : h.size ≤ i) : h.owner i = .detached := by
  rw [owner, node_of_size_le hi]
  rfl

theorem members_of_size_le (hi : h.size ≤ i) : h.members i = [] := by
  rw [members, node_of_size_le hi]
  rfl

/-- An element with a place at the top or below an owner is there. -/
theorem lt_size_of_owner_ne (hi : h.owner i ≠ .detached) : i < h.size := by
  by_contra hn
  exact hi (owner_of_size_le (Nat.not_lt.1 hn))

@[simp] theorem size_push : (h.push e).size = h.size + 1 := by simp [push, size]

theorem node_push : (h.push e).node j = if j = h.size then ⟨e, .root, []⟩ else h.node j := by
  unfold node push size
  rw [Array.getElem?_push]
  split <;> rfl

theorem owner_push : (h.push e).owner j = if j = h.size then .root else h.owner j := by
  simp only [owner, node_push]
  split <;> rfl

theorem element_push : (h.push e).element j = if j = h.size then e else h.element j := by
  simp only [element, node_push]
  split <;> rfl

@[simp] theorem members_push : (h.push e).members j = h.members j := by
  by_cases hj : j = h.size
  · subst hj
    rw [members_of_size_le (Nat.le_refl _), members, node_push, if_pos rfl]
  · simp only [members, node_push, if_neg hj]

@[simp] theorem namespaces_push : (h.push e).namespaces = h.namespaces := rfl

@[simp] theorem enums_push : (h.push e).enums = h.enums := rfl

variable {f : Node → Node}

@[simp] theorem size_modifyNode : (h.modifyNode i f).size = h.size := by simp [modifyNode, size]

theorem node_modifyNode :
    (h.modifyNode i f).node j = if j = i ∧ i < h.size then f (h.node j) else h.node j := by
  unfold node modifyNode
  simp only [Array.getElem?_modify]
  by_cases hj : i = j
  · subst hj
    by_cases hi : i < h.size
    · simp [hi, Array.getElem?_eq_getElem (show i < h.nodes.size from hi)]
    · simp [hi, Array.getElem?_eq_none (show h.nodes.size ≤ i from Nat.not_lt.1 hi)]
  · simp [hj, Ne.symm hj]

@[simp] theorem namespaces_modifyNode : (h.modifyNode i f).namespaces = h.namespaces := rfl

@[simp] theorem enums_modifyNode : (h.modifyNode i f).enums = h.enums := rfl

/-! ### Changing an element in its place -/

section Modify
variable {f : Element → Element}

@[simp] theorem size_modify : (h.modify i f).size = h.size := size_modifyNode

@[simp] theorem owner_modify : (h.modify i f).owner j = h.owner j := by
  simp only [owner, modify, node_modifyNode]
  split <;> rfl

@[simp] theorem members_modify : (h.modify i f).members j = h.members j := by
  simp only [members, modify, node_modifyNode]
  split <;> rfl

@[simp] theorem namespaces_modify : (h.modify i f).namespaces = h.namespaces := rfl

@[simp] theorem enums_modify : (h.modify i f).enums = h.enums := rfl

theorem element_modify :
    (h.modify i f).element j = if j = i ∧ i < h.size then f (h.element j) else h.element j := by
  simp only [element, modify, node_modifyNode]
  split <;> rfl

theorem element_modify_self (hi : i < h.size) : (h.modify i f).element i = f (h.element i) := by
  rw [element_modify, if_pos ⟨rfl, hi⟩]

theorem element_modify_of_ne (hj : j ≠ i) : (h.modify i f).element j = h.element j := by
  rw [element_modify, if_neg fun hh => hj hh.1]

/-- What a change leaves alone in every element, it leaves alone in the hierarchy. -/
theorem congr_element_modify {α : Type} (g : Element → α) (hg : ∀ e, g (f e) = g e) :
    g ((h.modify i f).element j) = g (h.element j) := by
  rw [element_modify]
  split
  · exact hg _
  · rfl

theorem forall_element_modify {P : Element → Prop} (hf : ∀ e, P e → P (f e))
    (hP : ∀ i, P (h.element i)) (j : ElementId) : P ((h.modify i f).element j) := by
  rw [element_modify]
  split
  · exact hf _ (hP j)
  · exact hP j

end Modify

/-! ### Owners and members -/

section Place
variable {o : Owner} {g : List ElementId → List ElementId}

@[simp] theorem size_setOwner : (h.setOwner i o).size = h.size := size_modifyNode

theorem owner_setOwner :
    (h.setOwner i o).owner j = if j = i ∧ i < h.size then o else h.owner j := by
  simp only [owner, setOwner, node_modifyNode]
  split <;> rfl

@[simp] theorem members_setOwner : (h.setOwner i o).members j = h.members j := by
  simp only [members, setOwner, node_modifyNode]
  split <;> rfl

@[simp] theorem element_setOwner : (h.setOwner i o).element j = h.element j := by
  simp only [element, setOwner, node_modifyNode]
  split <;> rfl

@[simp] theorem namespaces_setOwner : (h.setOwner i o).namespaces = h.namespaces := rfl

@[simp] theorem enums_setOwner : (h.setOwner i o).enums = h.enums := rfl

@[simp] theorem size_setMembers : (h.setMembers i g).size = h.size := size_modifyNode

@[simp] theorem owner_setMembers : (h.setMembers i g).owner j = h.owner j := by
  simp only [owner, setMembers, node_modifyNode]
  split <;> rfl

theorem members_setMembers :
    (h.setMembers i g).members j = if j = i ∧ i < h.size then g (h.members j) else h.members j := by
  simp only [members, setMembers, node_modifyNode]
  split <;> rfl

@[simp] theorem element_setMembers : (h.setMembers i g).element j = h.element j := by
  simp only [element, setMembers, node_modifyNode]
  split <;> rfl

@[simp] theorem namespaces_setMembers : (h.setMembers i g).namespaces = h.namespaces := rfl

@[simp] theorem enums_setMembers : (h.setMembers i g).enums = h.enums := rfl

end Place

/-! ### Taking an element from its place -/

@[simp] theorem size_detach : (h.detach i).size = h.size := by
  unfold detach
  cases h.owner i with
  | element p => simp
  | root => exact size_setOwner
  | detached => exact size_setOwner

@[simp] theorem element_detach : (h.detach i).element j = h.element j := by
  unfold detach
  cases h.owner i with
  | element p => simp
  | root => exact element_setOwner
  | detached => exact element_setOwner

@[simp] theorem enums_detach : (h.detach i).enums = h.enums := by
  unfold detach
  cases h.owner i <;> simp

theorem owner_detach : (h.detach i).owner j = if j = i then .detached else h.owner j := by
  have hset : ∀ g : Hierarchy, g.size = h.size → (∀ k, g.owner k = h.owner k) →
      (g.setOwner i .detached).owner j = if j = i then .detached else h.owner j := by
    intro g hs ho
    rw [owner_setOwner, hs, ho]
    by_cases hj : j = i
    · subst hj
      by_cases hi : j < h.size
      · simp [hi]
      · simp [hi, owner_of_size_le (Nat.not_lt.1 hi)]
    · simp [hj]
  unfold detach
  cases h.owner i with
  | element p => exact hset _ size_setMembers fun _ => owner_setMembers
  | root => exact hset _ rfl fun _ => rfl
  | detached => exact hset _ rfl fun _ => rfl

theorem members_detach :
    (h.detach i).members j =
      if h.owner i = .element j then (h.members j).filter (· ≠ i) else h.members j := by
  unfold detach
  cases ho : h.owner i with
  | element p =>
    simp only [members_setOwner, members_setMembers, Owner.element.injEq]
    by_cases hj : j = p
    · subst hj
      by_cases hs : j < h.size
      · simp [hs]
      · simp [members_of_size_le (Nat.not_lt.1 hs)]
    · simp [hj, Ne.symm hj]
  | root =>
    simp only [members_setOwner, reduceCtorEq, if_false]
    rfl
  | detached => simp

theorem namespaces_detach :
    (h.detach i).namespaces =
      if h.owner i = .root then h.namespaces.filter (· ≠ i) else h.namespaces := by
  unfold detach
  cases h.owner i <;> simp

/-! ### Moving an element -/

/-- The hierarchy with `child` moved under `parent`. -/
def move (h : Hierarchy) (parent child : ElementId) : Hierarchy :=
  (h.detach child).attach parent child

/-- A move is made unless it would put an element below itself. -/
theorem addMember_eq_ok {h h' : Hierarchy} {parent child : ElementId} :
    h.addMember parent child = .ok h' ↔
      parent ≠ child ∧ child ∉ h.ancestors parent ∧ h' = h.move parent child := by
  unfold addMember move
  split
  next hc => simp; tauto
  next hc =>
    rw [Except.ok.injEq]
    constructor
    · rintro rfl
      exact ⟨fun e => hc (.inl e), fun e => hc (.inr e), rfl⟩
    · rintro ⟨-, -, rfl⟩
      rfl

variable {c : ElementId}

@[simp] theorem size_attach : (h.attach p c).size = h.size := by simp [attach]

@[simp] theorem element_attach : (h.attach p c).element j = h.element j := by simp [attach]

@[simp] theorem enums_attach : (h.attach p c).enums = h.enums := by simp [attach]

@[simp] theorem namespaces_attach : (h.attach p c).namespaces = h.namespaces := by simp [attach]

theorem owner_attach (hc : c < h.size) :
    (h.attach p c).owner j = if j = c then .element p else h.owner j := by
  simp only [attach, owner_setOwner, owner_setMembers, size_setMembers, hc, and_true]

theorem members_attach (hp : p < h.size) :
    (h.attach p c).members j = h.members j ++ if j = p then [c] else [] := by
  simp only [attach, members_setOwner, members_setMembers, hp, and_true]
  by_cases hj : j = p <;> simp [hj]

@[simp] theorem size_move : (h.move p c).size = h.size := by simp [move]

@[simp] theorem element_move : (h.move p c).element j = h.element j := by simp [move]

@[simp] theorem enums_move : (h.move p c).enums = h.enums := by simp [move]

theorem namespaces_move :
    (h.move p c).namespaces =
      if h.owner c = .root then h.namespaces.filter (· ≠ c) else h.namespaces := by
  rw [move, namespaces_attach, namespaces_detach]

theorem owner_move (hc : c < h.size) :
    (h.move p c).owner j = if j = c then .element p else h.owner j := by
  rw [move, owner_attach (by rwa [size_detach]), owner_detach]
  by_cases hj : j = c <;> simp [hj]

theorem members_move (hp : p < h.size) :
    (h.move p c).members j =
      (if h.owner c = .element j then (h.members j).filter (· ≠ c) else h.members j)
        ++ if j = p then [c] else [] := by
  rw [move, members_attach (by rwa [size_detach]), members_detach]

/-! ### Growth -/

/-- A fresh namespace at the top. -/
def putNamespace (h : Hierarchy) (e : Element) : Hierarchy := (h.push e).listNamespace h.size

/-- A fresh enum at the top. -/
def putEnum (h : Hierarchy) (e : Element) : Hierarchy := (h.push e).listEnum h.size

/-- A fresh element below an owner. -/
def putBelow (h : Hierarchy) (p : ElementId) (e : Element) : Hierarchy := (h.push e).move p h.size

@[simp] theorem size_putNamespace : (h.putNamespace e).size = h.size + 1 := by
  unfold putNamespace listNamespace
  dsimp only
  split <;> simp [size, setOwner, modifyNode, push]

@[simp] theorem element_putNamespace :
    (h.putNamespace e).element j = if j = h.size then e else h.element j := by
  rw [← element_push]
  unfold putNamespace listNamespace
  dsimp only
  split
  · exact element_setOwner
  · exact element_setOwner (h := h.push e)

theorem owner_putNamespace :
    (h.putNamespace e).owner j = if j = h.size then .root else h.owner j := by
  have hset : ((h.push e).setOwner h.size .root).owner j =
      if j = h.size then .root else h.owner j := by
    rw [owner_setOwner, owner_push, size_push]
    by_cases hj : j = h.size <;> simp [hj]
  rw [← hset]
  unfold putNamespace listNamespace
  dsimp only
  split <;> rfl

@[simp] theorem members_putNamespace : (h.putNamespace e).members j = h.members j := by
  have hset : ((h.push e).setOwner h.size .root).members j = h.members j := by simp
  rw [← hset]
  unfold putNamespace listNamespace
  dsimp only
  split <;> rfl

theorem namespaces_putNamespace (hl : h.size ∉ h.namespaces) :
    (h.putNamespace e).namespaces = h.namespaces ++ [h.size] := by
  simp [putNamespace, listNamespace, hl]

@[simp] theorem enums_putNamespace : (h.putNamespace e).enums = h.enums := by
  unfold putNamespace listNamespace
  dsimp only
  split <;> rfl

@[simp] theorem size_putEnum : (h.putEnum e).size = h.size + 1 := by
  unfold putEnum listEnum
  split <;> simp [size, push]

@[simp] theorem element_putEnum :
    (h.putEnum e).element j = if j = h.size then e else h.element j := by
  rw [← element_push]
  unfold putEnum listEnum
  split <;> rfl

theorem owner_putEnum : (h.putEnum e).owner j = if j = h.size then .root else h.owner j := by
  rw [← owner_push (e := e)]
  unfold putEnum listEnum
  split <;> rfl

@[simp] theorem members_putEnum : (h.putEnum e).members j = h.members j := by
  have hpush : (h.push e).members j = h.members j := members_push
  rw [← hpush]
  unfold putEnum listEnum
  split <;> rfl

@[simp] theorem namespaces_putEnum : (h.putEnum e).namespaces = h.namespaces := by
  unfold putEnum listEnum
  split <;> rfl

theorem enums_putEnum (hl : h.size ∉ h.enums) :
    (h.putEnum e).enums = h.enums ++ [h.size] := by
  simp [putEnum, listEnum, hl]

@[simp] theorem size_putBelow : (h.putBelow p e).size = h.size + 1 := by simp [putBelow]

@[simp] theorem element_putBelow :
    (h.putBelow p e).element j = if j = h.size then e else h.element j := by
  simp [putBelow, element_push]

theorem owner_putBelow :
    (h.putBelow p e).owner j = if j = h.size then .element p else h.owner j := by
  rw [putBelow, owner_move (by simp), owner_push]
  by_cases hj : j = h.size <;> simp [hj]

theorem members_putBelow (hp : p < h.size) :
    (h.putBelow p e).members j = h.members j ++ if j = p then [h.size] else [] := by
  rw [putBelow, members_move (by rw [size_push]; exact Nat.lt_succ_of_lt hp), owner_push]
  simp

theorem namespaces_putBelow (hl : h.size ∉ h.namespaces) :
    (h.putBelow p e).namespaces = h.namespaces := by
  rw [putBelow, namespaces_move, owner_push, if_pos rfl, if_pos rfl, namespaces_push,
    List.filter_eq_self]
  intro i hi
  simp only [ne_eq, decide_not, Bool.not_eq_eq_eq_not, Bool.not_true, decide_eq_false_iff_not]
  rintro rfl
  exact hl hi

@[simp] theorem enums_putBelow : (h.putBelow p e).enums = h.enums := by simp [putBelow]

/-! ### Growth of any form -/

/-- One hierarchy is another with a fresh element under an owner. -/
structure Fresh (h h' : Hierarchy) (o : Owner) (e : Element) : Prop where
  size : h'.size = h.size + 1
  element : ∀ j, h'.element j = if j = h.size then e else h.element j
  owner : ∀ j, h'.owner j = if j = h.size then o else h.owner j

namespace Fresh

theorem putNamespace : Fresh h (h.putNamespace e) .root e :=
  ⟨size_putNamespace, fun _ => element_putNamespace, fun _ => owner_putNamespace⟩

theorem putEnum : Fresh h (h.putEnum e) .root e :=
  ⟨size_putEnum, fun _ => element_putEnum, fun _ => owner_putEnum⟩

theorem putBelow : Fresh h (h.putBelow p e) (.element p) e :=
  ⟨size_putBelow, fun _ => element_putBelow, fun _ => owner_putBelow⟩

variable {h' : Hierarchy} {o : Owner} (hf : Fresh h h' o e)
include hf

theorem element_new : h'.element h.size = e := by rw [hf.element, if_pos rfl]

theorem owner_new : h'.owner h.size = o := by rw [hf.owner, if_pos rfl]

theorem element_of_lt (hj : j < h.size) : h'.element j = h.element j := by
  rw [hf.element, if_neg (Nat.ne_of_lt hj)]

theorem owner_of_lt (hj : j < h.size) : h'.owner j = h.owner j := by
  rw [hf.owner, if_neg (Nat.ne_of_lt hj)]

theorem kind (j : ElementId) : h'.kind j = if j = h.size then e.kind else h.kind j := by
  rw [Hierarchy.kind, hf.element]
  split <;> rfl

theorem kind_new : h'.kind h.size = e.kind := by rw [Hierarchy.kind, hf.element_new]

theorem kind_of_lt (hj : j < h.size) : h'.kind j = h.kind j := by
  rw [Hierarchy.kind, hf.element_of_lt hj, Hierarchy.kind]

theorem fullName_of_lt (hj : j < h.size) : h'.fullName j = h.fullName j := by
  rw [Hierarchy.fullName, hf.element_of_lt hj, Hierarchy.fullName]

theorem size_lt : h.size < h'.size := by
  rw [hf.size]
  exact Nat.lt_succ_self _

/-- An element is the fresh one or one from before. -/
theorem lt_or_eq (hj : j < h'.size) : j < h.size ∨ j = h.size := by
  rw [hf.size] at hj
  exact Nat.lt_or_eq_of_le (Nat.le_of_lt_succ hj)

theorem forall_element {P : Element → Prop} (he : P e) (hP : ∀ i, P (h.element i)) (i : ElementId) :
    P (h'.element i) := by
  rw [hf.element]
  split
  · exact he
  · exact hP i

end Fresh

end BindingTree.Hierarchy

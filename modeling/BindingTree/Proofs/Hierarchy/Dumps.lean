import BindingTree.Hierarchy.Dump
import BindingTree.Proofs.Hierarchy.Traversal
import Mathlib.Algebra.BigOperators.Group.List.Basic
import Mathlib.Algebra.Ring.Nat

/-! The dump against the walk. The printer goes down with a depth in its hand; the walk only lists
elements, and each of them tells its depth by climbing to its owners. In a well-formed hierarchy a
member stands one level below the element that lists it, so both agree entry by entry. -/

namespace BindingTree.Hierarchy

/-- The entry of an element in a dump: its line after a tab for each of its owners. -/
def dumpEntry (h : Hierarchy) (i : ElementId) : String :=
  indent (h.ancestors i).length (h.element i).dumpLine

variable {h : Hierarchy} {i : ElementId}

namespace WellFormed

variable (hw : h.WellFormed)
include hw

/-- An element that is printed at its own depth, with all below it. -/
theorem dumpTo_eq (n : Nat) (i : ElementId) :
    h.dumpTo n (h.ancestors i).length i = (h.walkTo n i).map h.dumpEntry := by
  induction n generalizing i with
  | zero => rfl
  | succ n ih =>
    rw [dumpTo, walkTo, List.map_cons, List.map_flatMap]
    congr 1
    apply List.flatMap_congr
    intro c hc
    have hdepth : (h.ancestors c).length = (h.ancestors i).length + 1 := by
      rw [hw.ancestors_of_owner (hw.mem_members.1 hc), List.length_cons]
    rw [← hdepth, ih c]

theorem dump_eq : h.dump = h.walkAll.map h.dumpEntry := by
  rw [dump, walkAll, List.map_flatMap]
  apply List.flatMap_congr
  intro i hi
  have hroot : h.ancestors i = [] :=
    Grounded.ancestors_eq_nil (by simp [hw.owner_of_mem_tops hi])
  have hdepth : (h.ancestors i).length = 0 := by rw [hroot, List.length_nil]
  rw [← hdepth, hw.dumpTo_eq, walk]

theorem dumpText_eq : h.dumpText = String.join (h.walkAll.map fun i => h.dumpEntry i ++ "\n") := by
  rw [dumpText, hw.dump_eq, List.map_map]
  rfl

end WellFormed

/-! ### Counting -/

/-- Every element has one kind. -/
theorem sum_length_filter_kind (h : Hierarchy) (l : List ElementId) :
    (Kind.all.map fun k => (l.filter fun i => h.kind i = k).length).sum = l.length := by
  have hone : ∀ k : Kind, (Kind.all.map fun k' => if k = k' then 1 else 0).sum = 1 := by
    intro k
    cases k <;> decide
  induction l with
  | nil => simp
  | cons i l ih =>
    have hcons : ∀ k, ((i :: l).filter fun i => h.kind i = k).length =
        (if h.kind i = k then 1 else 0) + (l.filter fun i => h.kind i = k).length := by
      intro k
      by_cases hk : h.kind i = k
      · simp [hk]
        omega
      · simp [hk]
    simp only [hcons, List.sum_map_add, hone, ih, List.length_cons]
    omega

theorem sum_count (h : Hierarchy) : (Kind.all.map h.count).sum = h.walkAll.length :=
  h.sum_length_filter_kind h.walkAll

end BindingTree.Hierarchy

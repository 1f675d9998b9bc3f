import BindingTree.Proofs.Hierarchy.Places
import Mathlib.Data.List.Nodup
import Mathlib.Data.List.Range
import Mathlib.Data.List.Perm.Subperm
import Mathlib.Logic.Relation

/-! The relation of standing above. In a grounded hierarchy every owner is there and nothing stands
above itself; then the bounded climb to the owners is never cut short, and it lists exactly what
stands above. -/

namespace BindingTree.Hierarchy

/-- `a` is the owner of `i`. -/
def Owns (h : Hierarchy) (a i : ElementId) : Prop := h.owner i = .element a

/-- `a` stands above `i`, as its owner or further up. -/
def Above (h : Hierarchy) : ElementId → ElementId → Prop := Relation.TransGen h.Owns

structure Grounded (h : Hierarchy) : Prop where
  owner_lt : ∀ {i p : ElementId}, h.owner i = .element p → p < h.size
  acyclic : ∀ i : ElementId, ¬ h.Above i i

variable {h h' : Hierarchy} {a b i j p c : ElementId}

theorem Above.of_owner (ho : h.owner i = .element a) : h.Above a i := Relation.TransGen.single ho

theorem Above.below (hab : h.Above a b) (ho : h.owner i = .element b) : h.Above a i :=
  Relation.TransGen.tail hab ho

theorem Above.trans (hab : h.Above a b) (hbi : h.Above b i) : h.Above a i :=
  Relation.TransGen.trans hab hbi

/-- What stands above an owned element is its owner or stands above that. -/
theorem above_iff_of_owner (ho : h.owner i = .element p) :
    h.Above a i ↔ a = p ∨ h.Above a p := by
  constructor
  · intro ha
    cases ha with
    | single hs => exact .inl (Owner.element.inj (hs.symm.trans ho))
    | tail hab hs =>
      cases Owner.element.inj (hs.symm.trans ho)
      exact .inr hab
  · rintro (rfl | ha)
    · exact Above.of_owner ho
    · exact ha.below ho

theorem Above.exists_owner (ha : h.Above a i) : ∃ p, h.owner i = .element p := by
  cases ha with
  | single hs => exact ⟨_, hs⟩
  | tail _ hs => exact ⟨_, hs⟩

theorem Above.mono (ho : ∀ {j q : ElementId}, h'.owner j = .element q → h.owner j = .element q)
    (ha : h'.Above a i) : h.Above a i := by
  induction ha with
  | single hs => exact Above.of_owner (ho hs)
  | tail _ hs ih => exact ih.below (ho hs)

/-! ### Climbing -/

theorem above_of_mem_ownersUpTo {n : Nat} (ha : a ∈ h.ownersUpTo n i) : h.Above a i := by
  induction n generalizing i with
  | zero => simp [ownersUpTo] at ha
  | succ n ih =>
    rw [ownersUpTo] at ha
    split at ha
    next p ho =>
      rw [above_iff_of_owner ho]
      rcases List.mem_cons.1 ha with rfl | ha
      · exact .inl rfl
      · exact .inr (ih ha)
    next => simp at ha

theorem ownersUpTo_succ_of_length_lt {n : Nat} (hn : (h.ownersUpTo n i).length < n) :
    h.ownersUpTo (n + 1) i = h.ownersUpTo n i := by
  induction n generalizing i with
  | zero => simp at hn
  | succ n ih =>
    rw [ownersUpTo] at hn ⊢
    rw [ownersUpTo]
    split
    next p ho =>
      rw [ho] at hn
      rw [ih (by simpa using hn)]
    next => rfl

namespace Grounded

variable (hg : h.Grounded)
include hg

theorem lt_size_of_above (ha : h.Above a i) : a < h.size := by
  induction ha with
  | single hs => exact hg.owner_lt hs
  | tail _ _ ih => exact ih

theorem nodup_ownersUpTo (n : Nat) : (i :: h.ownersUpTo n i).Nodup := by
  induction n generalizing i with
  | zero => simp [ownersUpTo]
  | succ n ih =>
    refine List.nodup_cons.2 ⟨fun hm => hg.acyclic i (above_of_mem_ownersUpTo hm), ?_⟩
    rw [ownersUpTo]
    split
    next p ho => exact ih
    next => exact List.nodup_nil

/-- A chain of owners has no repetition, so it is shorter than the size. -/
theorem length_ownersUpTo_lt (hi : i < h.size) (n : Nat) : (h.ownersUpTo n i).length < h.size := by
  have hsub : i :: h.ownersUpTo n i ⊆ List.range h.size := by
    intro j hj
    rw [List.mem_range]
    rcases List.mem_cons.1 hj with rfl | hj
    · exact hi
    · exact hg.lt_size_of_above (above_of_mem_ownersUpTo hj)
  have hle := ((hg.nodup_ownersUpTo n).subperm hsub).length_le
  rwa [List.length_range] at hle

theorem ancestors_of_owner (ho : h.owner i = .element p) :
    h.ancestors i = p :: h.ancestors p := by
  have hi : i < h.size := lt_size_of_owner_ne (by rw [ho]; simp)
  unfold ancestors
  rw [← ownersUpTo_succ_of_length_lt (hg.length_ownersUpTo_lt hi _), ownersUpTo, ho]

omit hg in
theorem ancestors_eq_nil (ho : ∀ q, h.owner i ≠ .element q) : h.ancestors i = [] := by
  unfold ancestors
  cases h.size with
  | zero => rfl
  | succ n =>
    rw [ownersUpTo]
    split
    next p hp => exact absurd hp (ho p)
    next => rfl

theorem mem_ancestors : a ∈ h.ancestors i ↔ h.Above a i := by
  refine ⟨above_of_mem_ownersUpTo, fun ha => ?_⟩
  induction ha with
  | single hs =>
    rw [hg.ancestors_of_owner hs]
    exact List.mem_cons_self
  | tail _ hs ih =>
    rw [hg.ancestors_of_owner hs]
    exact List.mem_cons_of_mem _ ih

theorem length_ancestors_lt (hi : i < h.size) : (h.ancestors i).length < h.size :=
  hg.length_ownersUpTo_lt hi _

/-- What passes from owners to what they own holds of every element. -/
theorem owner_induction {P : ElementId → Prop}
    (step : ∀ i, (∀ p, h.owner i = .element p → P p) → P i) (i : ElementId) : P i := by
  induction hn : (h.ancestors i).length using Nat.strong_induction_on generalizing i with
  | h n ih =>
    refine step i fun p ho => ih _ ?_ p rfl
    rw [← hn, hg.ancestors_of_owner ho]
    exact Nat.lt_succ_self _

end Grounded

/-! ### The topmost owner -/

/-- The topmost element above `i`, or `i` itself if nothing stands above it. -/
def top (h : Hierarchy) (i : ElementId) : ElementId := (h.ancestors i).getLastD i

theorem Grounded.top_of_owner (hg : h.Grounded) (ho : h.owner i = .element p) :
    h.top i = h.top p := by
  rw [top, hg.ancestors_of_owner ho, top]
  cases h.ancestors p <;> simp [List.getLastD]

theorem top_eq_self (ho : ∀ q, h.owner i ≠ .element q) : h.top i = i := by
  rw [top, Grounded.ancestors_eq_nil ho]
  rfl

/-! ### Moving and growing -/

/-- A new edge from `p` to `c` makes no cycle unless `c` already stands above `p`. -/
theorem above_of_owner_update
    (ho : ∀ j, j ≠ c → h'.owner j = h.owner j) (hc : h'.owner c = .element p)
    (hpc : p ≠ c) (hcp : ¬ h.Above c p) (ha : h'.Above a b) :
    h.Above a b ∨ (a = p ∨ h.Above a p) ∧ (b = c ∨ h.Above c b) := by
  induction ha with
  | single hs =>
    rename_i b
    by_cases hb : b = c
    · subst hb
      exact .inr ⟨.inl (Owner.element.inj (hs.symm.trans hc)), .inl rfl⟩
    · exact .inl (Above.of_owner ((ho b hb).symm.trans hs))
  | tail _ hs ih =>
    rename_i b d _
    by_cases hd : d = c
    · subst hd
      cases Owner.element.inj (hs.symm.trans hc)
      rcases ih with ih | ⟨-, ih⟩
      · exact .inr ⟨.inr ih, .inl rfl⟩
      · exact absurd ih (by simp [hpc, hcp])
    · have hs : h.owner d = .element b := (ho d hd).symm.trans hs
      rcases ih with ih | ⟨ih, rfl | hb⟩
      · exact .inl (ih.below hs)
      · exact .inr ⟨ih, .inr (Above.of_owner hs)⟩
      · exact .inr ⟨ih, .inr (hb.below hs)⟩

theorem acyclic_of_owner_update (hacyc : ∀ i, ¬ h.Above i i)
    (ho : ∀ j, j ≠ c → h'.owner j = h.owner j) (hc : h'.owner c = .element p)
    (hpc : p ≠ c) (hcp : ¬ h.Above c p) (i : ElementId) : ¬ h'.Above i i := by
  intro ha
  rcases above_of_owner_update ho hc hpc hcp ha with ha | ⟨rfl | hip, rfl | hci⟩
  · exact hacyc i ha
  · exact hpc rfl
  · exact hcp hci
  · exact hcp hip
  · exact hcp (hci.trans hip)

end BindingTree.Hierarchy

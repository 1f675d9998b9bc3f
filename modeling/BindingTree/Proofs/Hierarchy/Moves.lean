import BindingTree.Hierarchy.Moves
import BindingTree.Proofs.Hierarchy.WellFormed
import BindingTree.Proofs.Outcomes

/-! Planned moves, made one by one. A plan for an element that none was made for goes to the end of
the list. When the moves are made, every planned element ends below its planned owner, every other
one keeps its owner, and no element changes in itself. -/

namespace BindingTree

namespace KeyedList

variable {κ α : Type} [DecidableEq κ] {m : KeyedList κ α} {k : κ} {a : α}

theorem get?_eq_none : m.get? k = none ↔ k ∉ m.entries.map Prod.fst := by
  simp only [get?, Option.map_eq_none_iff, List.find?_eq_none, decide_eq_true_eq, List.mem_map,
    not_exists, not_and]

theorem putIn_of_not_mem {entries : List (κ × α)} (hk : k ∉ entries.map Prod.fst) :
    putIn k a entries = entries ++ [(k, a)] := by
  induction entries with
  | nil => rfl
  | cons e rest ih =>
    rw [List.map_cons, List.mem_cons, not_or] at hk
    rw [putIn, if_neg (Ne.symm hk.1), ih hk.2, List.cons_append]

/-- A value under a new key goes to the end. -/
theorem entries_put (hk : m.get? k = none) : (m.put k a).entries = m.entries ++ [(k, a)] :=
  putIn_of_not_mem (get?_eq_none.1 hk)

end KeyedList

/-- Hierarchies that differ in places only. -/
structure Hierarchy.SameElements (h h' : Hierarchy) : Prop where
  size : h'.size = h.size
  element : h'.element = h.element
  enums : h'.enums = h.enums

namespace Hierarchy.SameElements

variable {h h' h'' : Hierarchy}

theorem refl (h : Hierarchy) : h.SameElements h := ⟨rfl, rfl, rfl⟩

theorem trans (h₁ : h.SameElements h') (h₂ : h'.SameElements h'') : h.SameElements h'' :=
  ⟨h₂.size.trans h₁.size, h₂.element.trans h₁.element, h₂.enums.trans h₁.enums⟩

theorem move {p c : ElementId} : h.SameElements (h.move p c) :=
  ⟨size_move, funext fun _ => element_move, enums_move⟩

theorem kind (hs : h.SameElements h') : h'.kind = h.kind := by
  funext i
  rw [Hierarchy.kind, hs.element, Hierarchy.kind]

theorem fullName (hs : h.SameElements h') : h'.fullName = h.fullName := by
  funext i
  rw [Hierarchy.fullName, hs.element, Hierarchy.fullName]

end Hierarchy.SameElements

namespace Moves

variable {h h' : Hierarchy} {i p : ElementId} {l : List (ElementId × ElementId)} {m : Moves}

theorem makeAll_cons_ok :
    makeAll ((i, p) :: l) h = .ok () h' ↔
      p ≠ i ∧ i ∉ h.ancestors p ∧ makeAll l (h.move p i) = .ok () h' := by
  rw [makeAll]
  dsimp only
  constructor
  · intro hm
    split at hm
    next g hg =>
      obtain ⟨hpi, hia, rfl⟩ := Hierarchy.addMember_eq_ok.1 hg
      exact ⟨hpi, hia, hm⟩
    next => cases hm
  · rintro ⟨hpi, hia, hm⟩
    rw [Hierarchy.addMember_eq_ok.2 ⟨hpi, hia, rfl⟩]
    exact hm

/-- What every move keeps, all of them together keep. -/
theorem makeAll_induction {I : Hierarchy → Prop}
    (step : ∀ {g : Hierarchy} {i p : ElementId}, (i, p) ∈ l → p ≠ i → i ∉ g.ancestors p → I g →
      I (g.move p i))
    (hI : I h) (hm : makeAll l h = .ok () h') : I h' := by
  induction l generalizing h with
  | nil =>
    cases hm
    exact hI
  | cons e l ih =>
    obtain ⟨i, p⟩ := e
    obtain ⟨hpi, hia, hm⟩ := makeAll_cons_ok.1 hm
    exact ih (fun hmem => step (List.mem_cons_of_mem _ hmem))
      (step List.mem_cons_self hpi hia hI) hm

/-- All moves can be made if none of them meets a cycle. -/
theorem exists_makeAll {I : Hierarchy → Prop}
    (step : ∀ {g : Hierarchy} {i p : ElementId}, (i, p) ∈ l → I g →
      p ≠ i ∧ i ∉ g.ancestors p ∧ I (g.move p i))
    (hI : I h) : ∃ h', makeAll l h = .ok () h' := by
  induction l generalizing h with
  | nil => exact ⟨h, rfl⟩
  | cons e l ih =>
    obtain ⟨i, p⟩ := e
    obtain ⟨hpi, hia, hI'⟩ := step List.mem_cons_self hI
    obtain ⟨h', hm⟩ := ih (fun hmem => step (List.mem_cons_of_mem _ hmem)) hI'
    exact ⟨h', makeAll_cons_ok.2 ⟨hpi, hia, hm⟩⟩

theorem sameElements_makeAll (hm : makeAll l h = .ok () h') : h.SameElements h' :=
  makeAll_induction (I := h.SameElements) (fun _ _ _ hs => hs.trans .move) (.refl h) hm

/-- Every planned element ends below its planned owner, and every other one keeps its owner. -/
theorem owner_makeAll (hn : (l.map Prod.fst).Nodup) (hl : ∀ e ∈ l, e.1 < h.size)
    (hm : makeAll l h = .ok () h') (j : ElementId) :
    h'.owner j = (((l.find? (·.1 = j)).map Prod.snd).map Owner.element).getD (h.owner j) := by
  induction l generalizing h with
  | nil =>
    cases hm
    rfl
  | cons e l ih =>
    obtain ⟨i, p⟩ := e
    obtain ⟨-, -, hm⟩ := makeAll_cons_ok.1 hm
    rw [List.map_cons, List.nodup_cons] at hn
    have hi : i < h.size := hl (i, p) List.mem_cons_self
    rw [ih hn.2 (fun e he => by rw [Hierarchy.size_move]; exact hl e (List.mem_cons_of_mem _ he)) hm,
      Hierarchy.owner_move hi]
    by_cases hj : i = j
    · subst hj
      have hnone : l.find? (·.1 = i) = none := by
        simp only [List.find?_eq_none, decide_eq_true_eq]
        intro e he hei
        exact hn.1 (List.mem_map.2 ⟨e, he, hei⟩)
      simp [hnone]
    · simp [hj, Ne.symm hj]

theorem apply_ok {moved : List ElementId} :
    m.apply h = .ok moved h' ↔ makeAll m.entries h = .ok () h' ∧ m.keys = moved := by
  refine EStateM.bind_eq_ok.trans ⟨?_, ?_⟩
  · rintro ⟨_, _, hm, hk⟩
    cases hk
    exact ⟨hm, rfl⟩
  · rintro ⟨hm, rfl⟩
    exact ⟨(), h', hm, rfl⟩

end Moves

end BindingTree

import BindingTree.Proofs.Build.Passes

/-! Hierarchies after a build. Calls that move an element under another or take one from its owner
may follow in any number and order, and may fail; in every state reached, owners, member lists and
the lists at the top agree, and all walks end. -/

namespace BindingTree

/-- A call that edits a finished hierarchy. -/
inductive Edit where
  /-- Moves a child under a parent. -/
  | add (parent child : ElementId)
  /-- Takes a child from a parent. -/
  | remove (parent child : ElementId)

namespace Edit

/-- Whether the elements that a call names are there. -/
def Known (h : Hierarchy) : Edit → Prop
  | add parent child | remove parent child => parent < h.size ∧ child < h.size

/-- Makes a call. There is a hierarchy afterwards, whether it fails or not. -/
def run : Edit → EStateM Failure Hierarchy Unit
  | add parent child => Moves.makeAll [(child, parent)]
  | remove parent child => modify fun h => (h.removeMember parent child).getD h

variable {h h' : Hierarchy} {parent child : ElementId} {failure : Failure}

theorem run_add : (add parent child).run h = match h.addMember parent child with
    | .ok h' => .ok () h'
    | .error failure => .error failure h := by
  change Moves.makeAll [(child, parent)] h = _
  rw [Moves.makeAll]
  dsimp only
  cases h.addMember parent child <;> rfl

theorem run_add_error (he : (add parent child).run h = .error failure h') : h' = h := by
  rw [run_add] at he
  split at he
  · cases he
  · cases he
    rfl

/-- A call keeps a hierarchy well-formed. -/
theorem wellFormed_run {e : Edit} (hw : h.WellFormed) (hk : e.Known h)
    (he : e.run h = .ok () h' ∨ ∃ failure, e.run h = .error failure h') : h'.WellFormed := by
  cases e with
  | add parent child =>
    rcases he with he | ⟨failure, he⟩
    · rw [run_add] at he
      split at he
      next g hg =>
        cases he
        obtain ⟨hne, hca, rfl⟩ := Hierarchy.addMember_eq_ok.1 hg
        exact hw.move hk.1 hk.2 hne fun ha => hca (hw.mem_ancestors.2 ha)
      next => cases he
    · rw [run_add_error he]
      exact hw
  | remove parent child =>
    rcases he with he | ⟨failure, he⟩
    · change EStateM.Result.ok () _ = _ at he
      cases he
      dsimp only
      unfold Hierarchy.removeMember
      split
      · exact hw.detach
      · exact hw
    · cases he

end Edit

/-- The states that a build and calls after it lead to, failing calls included. -/
inductive Reached (p : Plan) (rs : List Record) : Hierarchy → Prop where
  | built {h : Hierarchy} (hb : (p.build rs).result = .ok h) : Reached p rs h
  | edited {h h' : Hierarchy} {e : Edit} (hr : Reached p rs h) (hk : e.Known h)
      (he : e.run h = .ok () h' ∨ ∃ failure, e.run h = .error failure h') : Reached p rs h'

variable {p : Plan} {rs : List Record} {h : Hierarchy}

theorem orderly_of_build (hb : (p.build rs).result = .ok h) : h.Orderly := by
  obtain ⟨d, hd, rfl⟩ := build_ok hb
  obtain ⟨d₁, d₂, d₃, d₄, d₅, d₆, hstages⟩ := stages_of_passes hd
  exact hstages.sound_finished.orderly

theorem wellFormed_of_reached (hr : Reached p rs h) : h.WellFormed := by
  induction hr with
  | built hb => exact (orderly_of_build hb).toWellFormed
  | edited _ hk he ih => exact Edit.wellFormed_run ih hk he

/-- A hierarchy whose redundant parts agree and whose walks end. -/
structure Hierarchy.Intact (h : Hierarchy) : Prop where
  /-- Members are what names its owner, each once. -/
  members : ∀ p c, (c ∈ h.members p ↔ h.owner c = .element p) ∧ (h.members p).Nodup
  /-- The namespaces listed are those at the top, each once. -/
  namespaces : (∀ i, i ∈ h.namespaces ↔ h.kind i = .ns ∧ h.owner i = .root) ∧ h.namespaces.Nodup
  /-- No enum is listed twice, and nothing stands at the top unlisted. -/
  enums : h.enums.Nodup ∧ ∀ i, h.owner i = .root → i ∈ h.namespaces ∨ i ∈ h.enums
  /-- Nothing stands above itself, and the climb to the owners goes on to the last of them. -/
  ancestors : ∀ i, i ∉ h.ancestors i ∧
    h.ancestors i = match h.owner i with
      | .element p => p :: h.ancestors p
      | _ => []
  /-- A walk is an element and the walks of its members, and a loop over a stack ends with it. -/
  walk : ∀ i < h.size, h.walk i = i :: (h.members i).flatMap h.walk ∧
    h.unstack h.size [i] = some (h.walk i)
  /-- The walk of everything lists what has its topmost owner, or itself, at the top, each once. -/
  walkAll : h.walkAll.Nodup ∧
    ∀ i, i ∈ h.walkAll ↔ h.owner ((h.ancestors i).getLastD i) = .root
  /-- A move that fails changes nothing. -/
  failing : ∀ parent child failure h', (Edit.add parent child).run h = .error failure h' → h' = h

/-- In every state reached the hierarchy is intact. -/
theorem intact_of_reached (hr : Reached p rs h) : h.Intact := by
  have hw := wellFormed_of_reached hr
  refine ⟨fun p c => ⟨hw.mem_members, hw.nodup_members p⟩, ⟨fun i => hw.mem_namespaces,
    hw.nodup_namespaces⟩, ⟨hw.nodup_enums, fun i => hw.listed⟩, ?_, ?_, ?_, ?_⟩
  · intro i
    refine ⟨fun hi => hw.acyclic i (hw.mem_ancestors.1 hi), ?_⟩
    split
    next p ho => exact hw.ancestors_of_owner ho
    next hne => exact Hierarchy.Grounded.ancestors_eq_nil hne
  · intro i hi
    exact ⟨hw.walk_eq hi, hw.unstack_walk hi⟩
  · exact ⟨hw.nodup_walkAll, fun i => hw.mem_walkAll⟩
  · intro parent child failure h' he
    exact Edit.run_add_error he

/-- A build of the sample, a call that fails and one that moves an enum below an interface. -/
theorem intact_of_sample : ∃ h, Reached samplePlan sampleRecords h ∧ h.owner 8 = .element 6 ∧
    h.Intact := by
  obtain ⟨h, hb, hq⟩ := exists_built samplePlan sampleRecords
    (fun h => decide (8 < h.size) && (h.addMember 6 8).isOk) (by decide +kernel)
  rw [Bool.and_eq_true, decide_eq_true_eq] at hq
  obtain ⟨hsize, hok⟩ := hq
  have hknown : ∀ i ≤ 8, ∀ j ≤ 8, (Edit.add i j).Known h := fun i hi j hj =>
    ⟨Nat.lt_of_le_of_lt hi hsize, Nat.lt_of_le_of_lt hj hsize⟩
  have hfail : Reached samplePlan sampleRecords h := by
    refine .edited (e := .add 1 1) (.built hb) (hknown 1 (by decide) 1 (by decide))
      (.inr ⟨.invalidElement (.cycle (h.fullName 1) (h.fullName 1)), ?_⟩)
    rw [Edit.run_add, Hierarchy.addMember, if_pos (.inl rfl)]
  obtain ⟨h', hm⟩ : ∃ h', h.addMember 6 8 = .ok h' := by
    cases hm : h.addMember 6 8 with
    | ok h' => exact ⟨h', rfl⟩
    | error failure => simp [hm, Except.isOk, Except.toBool] at hok
  have hmoved : Reached samplePlan sampleRecords h' := by
    refine .edited (e := .add 6 8) hfail (hknown 6 (by decide) 8 (by decide)) (.inl ?_)
    rw [Edit.run_add, hm]
  refine ⟨h', hmoved, ?_, intact_of_reached hmoved⟩
  obtain ⟨-, -, rfl⟩ := Hierarchy.addMember_eq_ok.1 hm
  rw [Hierarchy.owner_move hsize, if_pos rfl]

end BindingTree

import BindingTree.Proofs.Hierarchy.Moves
import Mathlib.Data.List.Basic

/-! Plans made by calls, and what applying them comes to. The last call for an element decides where
it goes, the first one when. Moves are made one by one, among owners that may move themselves, but
each edits the members of two owners by the moved element alone: so the final lists can be read off
the old ones and the calls. Members and owners have to agree in the hierarchy, and nothing stand
above itself; what is listed at the top does not matter. -/

namespace BindingTree

namespace KeyedList

variable {κ α : Type} [DecidableEq κ] {m : KeyedList κ α} {k : κ} {a : α}

/-- A key keeps its place, and a new one goes to the end. -/
theorem keys_put : (m.put k a).keys = if k ∈ m.keys then m.keys else m.keys ++ [k] := by
  have hput : ∀ entries : List (κ × α), (putIn k a entries).map Prod.fst =
      if k ∈ entries.map Prod.fst then entries.map Prod.fst else entries.map Prod.fst ++ [k] := by
    intro entries
    induction entries with
    | nil => simp [putIn]
    | cons e rest ih =>
      rw [putIn]
      by_cases he : e.1 = k
      · simp [he]
      · rw [if_neg he, List.map_cons, ih]
        by_cases hk : k ∈ rest.map Prod.fst <;> simp [hk, Ne.symm he]
  exact hput m.entries

theorem get?_of_mem {e : κ × α} (he : e ∈ m.entries) : m.get? e.1 = some e.2 := by
  obtain ⟨entries, hn⟩ := m
  unfold get?
  dsimp only at he ⊢
  induction entries with
  | nil => simp at he
  | cons f rest ih =>
    rw [List.map_cons, List.nodup_cons] at hn
    rcases List.mem_cons.1 he with rfl | he
    · simp
    · have hne : f.1 ≠ e.1 := fun h => hn.1 (h ▸ List.mem_map_of_mem he)
      rw [List.find?_cons_of_neg (by simpa using hne)]
      exact ih hn.2 he

/-- The keys with a value, in their order. -/
theorem map_fst_filter [DecidableEq α] (m : KeyedList κ α) (a : α) :
    (m.entries.filter (·.2 = a)).map Prod.fst = m.keys.filter (m.get? · = some a) := by
  rw [keys, List.filter_map]
  congr 1
  apply List.filter_congr
  intro e he
  simp [get?_of_mem he]

end KeyedList

namespace Hierarchy

/-- Members and owners agree, and nothing stands above itself. -/
structure Linked (h : Hierarchy) : Prop where
  mem_members : ∀ {p c : ElementId}, c ∈ h.members p ↔ h.owner c = .element p
  acyclic : ∀ i : ElementId, ¬ h.Above i i

variable {h : Hierarchy} {p c j : ElementId}

theorem WellFormed.linked (hw : h.WellFormed) : h.Linked := ⟨hw.mem_members, hw.acyclic⟩

namespace Linked

variable (hl : h.Linked)
include hl

theorem grounded : h.Grounded where
  acyclic := hl.acyclic
  owner_lt {i q} ho := by
    by_contra hq
    have hmem := hl.mem_members.2 ho
    simp [members_of_size_le (Nat.not_lt.1 hq)] at hmem

/-- A move takes the element from all members and puts it last below its new owner. -/
theorem members_move (hp : p < h.size) :
    (h.move p c).members j = (h.members j).filter (· ≠ c) ++ if j = p then [c] else [] := by
  rw [Hierarchy.members_move hp]
  split
  · rfl
  next ho =>
    have hc : c ∉ h.members j := fun hmem => ho (hl.mem_members.1 hmem)
    rw [List.filter_eq_self.2 fun i hi => by simpa using fun hic : i = c => hc (hic ▸ hi)]

theorem move (hp : p < h.size) (hc : c < h.size) (hpc : p ≠ c) (hca : c ∉ h.ancestors p) :
    (h.move p c).Linked where
  mem_members {q k} := by
    rw [hl.members_move hp, owner_move hc, List.mem_append, List.mem_filter, hl.mem_members]
    by_cases hk : k = c
    · simp [hk, eq_comm]
    · by_cases hq : q = p <;> simp [hk, hq]
  acyclic := by
    refine acyclic_of_owner_update hl.acyclic (fun k hk => ?_) ?_ hpc
      fun ha => hca (hl.grounded.mem_ancestors.2 ha)
    · rw [owner_move hc, if_neg hk]
    · rw [owner_move hc, if_pos rfl]

end Linked

end Hierarchy

namespace Moves

variable {h h' : Hierarchy} {m m' : Moves} {i j p : ElementId} {l : List (ElementId × ElementId)}
  {past calls : List (ElementId × ElementId)}

/-! ### Calls -/

/-- The owner that the last call for an element gives it. -/
def latest? (calls : List (ElementId × ElementId)) (i : ElementId) : Option ElementId :=
  ((calls.filter (·.1 = i)).getLast?).map Prod.snd

/-- The elements that calls are for, in the order of the first call for each. -/
def inOrder (calls : List (ElementId × ElementId)) : List ElementId :=
  (calls.map Prod.fst).eraseDups

/-- Makes calls one after the other and gives their answers. -/
def planAll (calls : List (ElementId × ElementId)) : StateM Moves (List (Option ElementId)) :=
  calls.mapM fun c => planCall c.1 c.2

theorem latest?_concat :
    latest? (past ++ [(i, p)]) j = if j = i then some p else latest? past j := by
  unfold latest?
  rw [List.filter_append]
  by_cases hj : i = j
  · simp [hj]
  · simp [hj, Ne.symm hj]

theorem inOrder_concat : inOrder (past ++ [(i, p)]) =
    if i ∈ inOrder past then inOrder past else inOrder past ++ [i] := by
  unfold inOrder
  rw [List.map_append, List.eraseDups_append]
  by_cases hi : i ∈ past.map Prod.fst
  · simp [List.removeAll, hi]
  · simp [List.removeAll, hi, List.eraseDups_cons]

theorem mem_inOrder : i ∈ inOrder calls ↔ latest? calls i ≠ none := by
  simp [inOrder, latest?]

theorem mem_of_latest? (hp : latest? calls i = some p) : (i, p) ∈ calls := by
  obtain ⟨c, hc, rfl⟩ := Option.map_eq_some_iff.1 hp
  obtain ⟨hmem, hi⟩ := List.mem_filter.1 (List.mem_of_getLast? hc)
  simpa [← of_decide_eq_true hi] using hmem

/-- A plan that says what calls said. -/
structure Follows (m : Moves) (calls : List (ElementId × ElementId)) : Prop where
  keys : m.keys = inOrder calls
  target? : ∀ i, m.target? i = latest? calls i

theorem Follows.nil : Follows {} [] := ⟨rfl, fun _ => rfl⟩

/-- One more call. -/
theorem Follows.plan (hm : m.Follows past) : (m.plan i p).Follows (past ++ [(i, p)]) where
  keys := by rw [Moves.plan, KeyedList.keys_put, hm.keys, inOrder_concat]
  target? j := by
    rw [Moves.target?, Moves.plan, KeyedList.get?_put, latest?_concat, ← hm.target? j]
    rfl

/-- All calls: each answers with the owner that was planned last before it. -/
theorem Follows.planAll (hm : m.Follows past) (calls : List (ElementId × ElementId)) :
    ∃ m', (Moves.planAll calls).run m =
      (calls.mapIdx fun k c => latest? (past ++ calls.take k) c.1, m') ∧
        m'.Follows (past ++ calls) := by
  induction calls generalizing m past with
  | nil => exact ⟨m, rfl, by simpa using hm⟩
  | cons c calls ih =>
    obtain ⟨m', hrun, hm'⟩ := ih (hm.plan (i := c.1) (p := c.2))
    refine ⟨m', ?_, by simpa using hm'⟩
    have hcall : (Moves.planAll (c :: calls)).run m =
        let (answers, m') := (Moves.planAll calls).run (m.plan c.1 c.2)
        (m.target? c.1 :: answers, m') := by
      simp [Moves.planAll, planCall]
      rfl
    rw [hcall, hrun, hm.target?]
    simp [List.mapIdx_cons]

/-! ### Making the moves -/

/-- The members of an owner when moves of different elements are made: the old ones that were not
moved, and after them those that were moved below it. -/
theorem members_makeAll (hl : h.Linked) (hn : (l.map Prod.fst).Nodup)
    (hk : ∀ e ∈ l, e.1 < h.size ∧ e.2 < h.size) (hm : makeAll l h = .ok () h') (j : ElementId) :
    h'.members j =
      (h.members j).filter (· ∉ l.map Prod.fst) ++ (l.filter (·.2 = j)).map Prod.fst := by
  induction l generalizing h with
  | nil =>
    cases hm
    simp
  | cons e l ih =>
    obtain ⟨i, p⟩ := e
    obtain ⟨hpi, hia, hm⟩ := makeAll_cons_ok.1 hm
    obtain ⟨hi, hp⟩ := hk (i, p) List.mem_cons_self
    rw [List.map_cons, List.nodup_cons] at hn
    have hk' : ∀ e ∈ l, e.1 < (h.move p i).size ∧ e.2 < (h.move p i).size := by
      intro e he
      simpa using hk e (List.mem_cons_of_mem _ he)
    rw [ih (hl.move hp hi hpi hia) hn.2 hk' hm, hl.members_move hp, List.filter_append,
      List.filter_filter]
    -- The moved element stays last below its owner, as it is not moved again.
    have hlast : (if j = p then [i] else []).filter (· ∉ l.map Prod.fst) =
        if j = p then [i] else [] := by
      split
      · simp [hn.1]
      · rfl
    have hrest : (h.members j).filter (fun k => decide (k ∉ l.map Prod.fst) && decide (k ≠ i)) =
        (h.members j).filter (· ∉ ((i, p) :: l).map Prod.fst) := by
      apply List.filter_congr
      intro k _
      by_cases hki : k = i <;> simp [hki]
    rw [hlast, hrest, List.append_assoc]
    by_cases hj : j = p
    · simp [hj]
    · simp [hj, Ne.symm hj]

/-- What comes of applying the plan that calls made. -/
structure Applied (calls : List (ElementId × ElementId)) (h h' : Hierarchy)
    (moved : List ElementId) : Prop where
  /-- Every element that was planned for is moved, in the order of the first calls. -/
  moved : moved = inOrder calls
  planned : ∀ i p, latest? calls i = some p → h'.owner i = .element p
  unplanned : ∀ i, latest? calls i = none → h'.owner i = h.owner i
  /-- Members that were not planned for stay in their order, before those that come. -/
  members : ∀ j, h'.members j = (h.members j).filter (latest? calls · = none) ++
    (inOrder calls).filter (latest? calls · = some j)

theorem Follows.applied {moved : List ElementId} (hf : m.Follows calls) (hl : h.Linked)
    (hk : ∀ i p, latest? calls i = some p → i < h.size ∧ p < h.size)
    (ha : m.apply h = .ok moved h') : Applied calls h h' moved := by
  obtain ⟨hmade, rfl⟩ := apply_ok.1 ha
  have hentry : ∀ e ∈ m.entries, e.1 < h.size ∧ e.2 < h.size := by
    intro e he
    exact hk e.1 e.2 ((hf.target? e.1).symm.trans (KeyedList.get?_of_mem he))
  have howner : ∀ i, h'.owner i = ((latest? calls i).map Owner.element).getD (h.owner i) := by
    intro i
    rw [← hf.target? i]
    exact owner_makeAll m.nodup (fun e he => (hentry e he).1) hmade i
  refine ⟨hf.keys, fun i p hp => ?_, fun i hi => ?_, fun j => ?_⟩
  · rw [howner, hp]
    rfl
  · rw [howner, hi]
    rfl
  · have hkeys : m.entries.map Prod.fst = inOrder calls := hf.keys
    rw [members_makeAll hl m.nodup hentry hmade, KeyedList.map_fst_filter, hf.keys, hkeys]
    congr 1
    · apply List.filter_congr
      intro i _
      simp [mem_inOrder]
    · apply List.filter_congr
      intro i _
      rw [← hf.target? i]
      rfl

/-- Calls that plan answer with what was planned before, and the plan they make on nothing does what
was planned last when it is applied, and nothing else. -/
theorem applied_of_planAll (calls : List (ElementId × ElementId)) :
    ∃ m, (planAll calls).run {} = (calls.mapIdx fun k c => latest? (calls.take k) c.1, m) ∧
      ∀ h h' moved, h.Linked →
        (∀ i p, latest? calls i = some p → i < h.size ∧ p < h.size) →
          m.apply h = .ok moved h' → Applied calls h h' moved := by
  obtain ⟨m, hrun, hf⟩ := Follows.nil.planAll calls
  refine ⟨m, by simpa using hrun, ?_⟩
  intro h h' moved hl hk ha
  rw [List.nil_append] at hf
  exact hf.applied hl hk ha

/-- A namespace with three classes, the first of which has a fourth one. -/
def fourClasses : Hierarchy :=
  let cls : Element := .fresh (.type .cls {}) "C"
  let top := ({} : Hierarchy).putNamespace (.fresh (.ns {}) "a")
  (((top.putBelow 0 cls).putBelow 0 cls).putBelow 0 cls).putBelow 1 cls

/-- The third class is planned for twice, in the end to go below the fourth, which is planned to go
where it is. -/
def overlappingCalls : List (ElementId × ElementId) := [(3, 2), (2, 1), (4, 1), (3, 4)]

theorem applied_of_overlapping : ∃ m moved h',
    (planAll overlappingCalls).run {} = ([none, none, none, some 2], m) ∧
      m.apply fourClasses = .ok moved h' ∧ moved = [3, 2, 4] ∧ h'.owner 3 = .element 4 ∧
        h'.owner 1 = .element 0 ∧ h'.members 0 = [1] ∧ h'.members 1 = [2, 4] ∧
          h'.members 4 = [3] := by
  obtain ⟨m, hrun, happly⟩ := applied_of_planAll overlappingCalls
  have hplan : m = ((planAll overlappingCalls).run {}).2 := by rw [hrun]
  obtain ⟨moved, h', ha⟩ : ∃ moved h', m.apply fourClasses = .ok moved h' := by
    rw [hplan]
    exact ⟨_, _, rfl⟩
  have hwell : fourClasses.WellFormed :=
    ((((Hierarchy.WellFormed.nil.putNamespace rfl).putBelow (by simp)).putBelow (by simp)).putBelow
      (by simp)).putBelow (by simp)
  have hknown : ∀ i p, latest? overlappingCalls i = some p →
      i < fourClasses.size ∧ p < fourClasses.size := by
    intro i p hp
    have hall : ∀ c ∈ overlappingCalls, c.1 < fourClasses.size ∧ c.2 < fourClasses.size := by
      decide +kernel
    exact hall (i, p) (mem_of_latest? hp)
  have happlied := happly fourClasses h' moved hwell.linked hknown ha
  refine ⟨m, moved, h', hrun, ha, happlied.moved, happlied.planned 3 4 rfl,
    (happlied.unplanned 1 rfl).trans ?_, (happlied.members 0).trans ?_,
    (happlied.members 1).trans ?_, (happlied.members 4).trans ?_⟩
  · decide +kernel
  · decide +kernel
  · decide +kernel
  · decide +kernel

end Moves

end BindingTree

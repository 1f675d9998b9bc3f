import BindingTree.Proofs.Build.Edits
import BindingTree.Proofs.Hierarchy.Blocks
import BindingTree.Proofs.Hierarchy.Dumps

/-! Walks and dumps of hierarchies that a build made and calls edited. What moves comes in one
piece, and the printer prints what the walks list. -/

namespace BindingTree

variable {p : Plan} {rs : List Record} {h h' : Hierarchy} {parent child : ElementId}

/-- A move that is made moves the walk of its element as one block. -/
theorem blockMoved_of_reached (hr : Reached p rs h) (hk : (Edit.add parent child).Known h)
    (he : (Edit.add parent child).run h = .ok () h') : h.BlockMoved h' parent child := by
  have hw := wellFormed_of_reached hr
  rw [Edit.run_add] at he
  split at he
  next g hg =>
    cases he
    obtain ⟨hne, hca, rfl⟩ := Hierarchy.addMember_eq_ok.1 hg
    apply hw.blockMoved hk.1 hk.2
    rintro (heq | ha)
    · exact hne heq
    · exact hca (hw.mem_ancestors.2 ha)
  next => cases he

/-- A class with a method, a nested class and a nested enum goes below an interface that has a
field. -/
theorem blockMoved_of_sample : ∃ h h', Reached samplePlan sampleRecords h ∧
    (Edit.add 6 1).run h = .ok () h' ∧ h.walk 1 = [1, 2, 3, 4, 8, 9] ∧
      h.walkAll = [0, 1, 2, 3, 4, 8, 9, 6, 7, 15, 11, 12, 13, 14, 10] ∧
        h'.walk 1 = [1, 2, 3, 4, 8, 9] ∧
          h'.walkAll.filter (· ∉ h.walk 1) = [0, 6, 7, 15, 11, 12, 13, 14, 10] ∧
            ∃ before after, h'.walkAll = before ++ 7 :: (h.walk 1 ++ after) := by
  obtain ⟨h, hb, hq⟩ := exists_built samplePlan sampleRecords (fun h => decide (16 = h.size ∧
      h.walk 1 = [1, 2, 3, 4, 8, 9] ∧ h.walk 6 = [6, 7] ∧
        h.walkAll = [0, 1, 2, 3, 4, 8, 9, 6, 7, 15, 11, 12, 13, 14, 10]) &&
      (h.addMember 6 1).isOk) (by decide +kernel)
  rw [Bool.and_eq_true, decide_eq_true_eq] at hq
  obtain ⟨⟨hsize, hblock, howner, hall⟩, hok⟩ := hq
  obtain ⟨h', hm⟩ : ∃ h', h.addMember 6 1 = .ok h' := by
    cases hm : h.addMember 6 1 with
    | ok h' => exact ⟨h', rfl⟩
    | error failure => simp [hm, Except.isOk, Except.toBool] at hok
  have hrun : (Edit.add 6 1).run h = .ok () h' := by rw [Edit.run_add, hm]
  have hknown : (Edit.add 6 1).Known h := by
    change 6 < h.size ∧ 1 < h.size
    omega
  have hmoved := blockMoved_of_reached (.built hb) hknown hrun
  obtain ⟨before, last, after, hlast, hplaced⟩ := hmoved.placed (by rw [hall]; decide)
  have hseven : last = 7 := by
    rw [howner, hblock] at hlast
    exact (Option.some.inj hlast).symm
  refine ⟨h, h', .built hb, hrun, hblock, hall, hmoved.block.trans hblock, ?_, before, after, ?_⟩
  · rw [hmoved.others, hall, hblock]
    decide
  · rw [hplaced, hseven]

/-- The dump is the walk of everything, which a loop over a stack gives, entry by entry: the line of
each element, after a tab for each of its owners. So it has as many lines as there are elements of
all kinds. -/
theorem dump_of_reached (hr : Reached p rs h) :
    h.unstack h.size (h.namespaces ++ h.rootEnums) = some h.walkAll ∧
      h.dump = h.walkAll.map
        (fun i => Hierarchy.indent (h.ancestors i).length (h.element i).dumpLine) ∧
      h.dumpText = String.join (h.walkAll.map
        fun i => Hierarchy.indent (h.ancestors i).length (h.element i).dumpLine ++ "\n") ∧
      h.dump.length = (Kind.all.map h.count).sum := by
  have hw := wellFormed_of_reached hr
  refine ⟨hw.unstack_walkAll, hw.dump_eq, hw.dumpText_eq, ?_⟩
  rw [hw.dump_eq, List.length_map, h.sum_count]

/-- After a class was taken out, with all below it, the dump tells of what is left. -/
theorem dump_of_pruned : ∃ h h', Reached samplePlan sampleRecords h ∧
    (Edit.remove 0 1).run h = .ok () h' ∧ h'.walkAll = [0, 6, 7, 15, 11, 12, 13, 14, 10] ∧
      h'.dump[2]? = some ("\t\tField: [native: LIMIT (a.b.Face.LIMIT)] " ++
        "[managed: LIMIT (A.B.IFace.LIMIT)]") ∧
      (Kind.all.map h'.count).sum = 9 := by
  obtain ⟨h, hb, hq⟩ := exists_built samplePlan sampleRecords (fun h => decide (16 = h.size ∧
    let h' := (h.removeMember 0 1).getD h
    h'.walkAll = [0, 6, 7, 15, 11, 12, 13, 14, 10] ∧ (h'.ancestors 7).length = 2 ∧
      (h'.element 7).dumpLine =
        "Field: [native: LIMIT (a.b.Face.LIMIT)] [managed: LIMIT (A.B.IFace.LIMIT)]"))
    (by decide +kernel)
  obtain ⟨hsize, hall, hdepth, hline⟩ := of_decide_eq_true hq
  have hknown : (Edit.remove 0 1).Known h := by
    change 0 < h.size ∧ 1 < h.size
    omega
  have hrun : (Edit.remove 0 1).run h = .ok () ((h.removeMember 0 1).getD h) := rfl
  obtain ⟨-, hdump, -, hlength⟩ := dump_of_reached (.edited (.built hb) hknown (.inl hrun))
  refine ⟨h, _, .built hb, hrun, hall, ?_, ?_⟩
  · rw [hdump, hall]
    simp only [List.map_cons, List.getElem?_cons_succ, List.getElem?_cons_zero, hdepth, hline]
    rfl
  · rw [← hlength, hdump, hall]
    rfl

end BindingTree

import BindingTree.Proofs.Build.EnumRounds

/-! Base types that are namespaces. A look-up prefers an entry of the kind that it is asked for, but
takes any other under the plain name, and nothing checks what it gave. So a namespace becomes a base
type where it bears the name that was looked for, also while a type of that name stands under a key
with its kind. As the index leads to types and namespaces only, and to each by its own name, this is
the one way in which a base type is not a type. -/

namespace BindingTree

open Build

variable {p : Plan} {rs : List Record} {h : Hierarchy} {d' d₁ d₂ d₃ d₄ d₅ d₆ : Draft}
  {b : ElementId} {name : String} {hint : Kind}

/-- What a name leads to when base types are found is at the end a type or a namespace, and answers
to the name. -/
theorem Stages.answers_of_find? (hst : Stages p rs d₁ d₂ d₃ d₄ d₅ d₆ d')
    (hb : d₆.registry.index.find? name hint = some b) :
    ((d'.hierarchy.kind b).isType = true ∨ d'.hierarchy.kind b = .ns) ∧
      (d'.hierarchy.element b).AnswersTo p.settings.policy name hint := by
  have hanswers := hst.upkept_called.filed.of_find? hst.sound_called hb
  rw [hst.policy_called] at hanswers
  rw [hst.finish.kind]
  exact ⟨(hst.sound_called.of_find? hb).2,
    hanswers.congr (hst.finish.native b) (hst.finish.managed b)⟩

/-- Every base type at the end of a build is a type, except where it is a namespace that answers to
a name that was looked for: one of the type's base names, or its default base. -/
theorem typeBases_of_build (hb : (p.build rs).result = .ok h) :
    ∀ i ∈ h.walkAll, ∀ facts bases, (h.element i).facts? = some facts → facts.bases = some bases →
      ∀ b ∈ bases, (h.kind b).isType = true ∨
        h.kind b = .ns ∧ ∃ name hint, p.settings.Seeks (h.kind i) facts.baseNames name hint ∧
          (h.element b).AnswersTo p.settings.policy name hint := by
  obtain ⟨d, hd, rfl⟩ := build_ok hb
  obtain ⟨d₁, d₂, d₃, d₄, d₅, d₆, hst⟩ := stages_of_passes hd
  intro i _ facts bases hfacts hbases b hmem
  obtain ⟨tk, hp⟩ := payload_of_facts? hfacts
  have hkind : d.hierarchy.kind i = tk.kind := congrArg Payload.kind hp
  obtain ⟨name, hint, hseeks, hfind⟩ := (hst.bases_finished hp hbases).sought hmem
  obtain ⟨htype, hanswers⟩ := hst.answers_of_find? hfind
  exact htype.imp_right fun hns => ⟨hns, name, hint, hkind ▸ hseeks, hanswers⟩

/-- A namespace and a class of one full name, and a class that extends what is called by it. -/
def homonymRecords : List Record :=
  [.plain (.ns {}) "a.Base" [],
    .plain (.ns {}) "a"
      [.plain (.cls {}) "Base" [], .plain (.cls { base := some "a.Base" }) "C" []]]

/-- The class extends the namespace, though there is a class that it could mean. -/
theorem extends_namespace : ∃ h, (samplePlan.build homonymRecords).result = .ok h ∧
    3 ∈ h.walkAll ∧ (h.element 3).facts? = some { baseNames := ["a.Base"], bases := some [0] } ∧
      ¬ (h.kind 0).isType = true ∧ h.kind 0 = .ns ∧ h.kind 2 = .cls ∧ h.fullName 2 = "a.Base" := by
  obtain ⟨h, hb, hq⟩ := exists_built samplePlan homonymRecords
    (fun h => decide (3 ∈ h.walkAll) &&
      decide ((h.element 3).facts? = some { baseNames := ["a.Base"], bases := some [0] }) &&
        decide (h.kind 0 = .ns) && decide (h.kind 2 = .cls) && decide (h.fullName 2 = "a.Base"))
    (by decide +kernel)
  simp only [Bool.and_eq_true, decide_eq_true_eq] at hq
  obtain ⟨⟨⟨⟨hmem, hfacts⟩, hns⟩, hcls⟩, hname⟩ := hq
  exact ⟨h, hb, hmem, hfacts, by simp [hns, Kind.isType], hns, hcls, hname⟩

theorem typeBases_of_homonyms : ∃ h, (samplePlan.build homonymRecords).result = .ok h ∧
    3 ∈ h.walkAll ∧ h.kind 0 = .ns ∧
      ∃ name hint, samplePlan.settings.Seeks (h.kind 3) ["a.Base"] name hint ∧
        (h.element 0).AnswersTo samplePlan.settings.policy name hint := by
  obtain ⟨h, hb, hq⟩ := exists_built samplePlan homonymRecords
    (fun h => decide (3 ∈ h.walkAll) && decide ((h.element 3).facts? =
      some { baseNames := ["a.Base"], bases := some [0] }) && !(h.kind 0).isType)
    (by decide +kernel)
  simp only [Bool.and_eq_true, decide_eq_true_eq, Bool.not_eq_true'] at hq
  obtain ⟨⟨hmem, hfacts⟩, hnot⟩ := hq
  rcases typeBases_of_build hb 3 hmem _ [0] hfacts rfl 0 List.mem_cons_self with htype | hns
  · cases hnot.symm.trans htype
  · exact ⟨h, hb, hmem, hns⟩

end BindingTree

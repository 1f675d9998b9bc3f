import BindingTree.Proofs.Build.NativeNames

/-! Native full names at the end of a build. Nesting enums renames the moved enums and nothing else,
so whatever is neither an enum nor a member of one stays settled to the end; an element of a record
or an invoker that has no enum above it then has the full name of its chain of owners. -/

namespace BindingTree

open Build Naming
open Relation (ReflTransGen)

namespace Hierarchy

/-- Neither an enum nor a member of one. -/
def OutsideEnums (h : Hierarchy) (i : ElementId) : Prop :=
  h.kind i ≠ .enum ∧ ∀ p, h.owner i = .element p → h.kind p ≠ .enum

/-- All that is neither an enum nor a member of one is settled. -/
def AllSettled (h : Hierarchy) : Prop :=
  ∀ i, h.owner i ≠ .detached → h.OutsideEnums i → h.Settled i

end Hierarchy

variable {p : Plan} {rs : List Record} {h h' : Hierarchy} {i j : ElementId}
  {d d' d₁ d₂ d₃ d₄ d₅ d₆ : Draft}

/-! ### Nesting enums and making invokers -/

theorem not_mem_rootEnums (ho : h.Orderly) (hk : h.kind i ≠ .enum) : i ∉ h.rootEnums :=
  fun hmem => hk (ho.mem_rootEnums.1 hmem).1

/-- What is not an enum keeps its place and its names when enums are nested. -/
theorem Build.EnumsNested.stayed_of_kind (he : EnumsNested d h') (hs : d.Sound)
    (hk : d.hierarchy.kind i ≠ .enum) :
    h'.owner i = d.hierarchy.owner i ∧ h'.fullName i = d.hierarchy.fullName i :=
  he.stayed fun hmem => absurd hmem (not_mem_rootEnums hs.orderly hk)

theorem Build.EnumsNested.allSettled (he : EnumsNested d h') (hs : d.Sound)
    (hplaced : ∀ i, d.hierarchy.owner i ≠ .detached →
      d.hierarchy.kind i = .enum ∧ d.hierarchy.owner i = .root ∨ d.hierarchy.Settled i) :
    h'.AllSettled := by
  rintro i hi ⟨hkind, hup⟩
  rw [he.kind] at hkind
  obtain ⟨howner, hfull⟩ := he.stayed_of_kind hs hkind
  rcases hplaced i (howner ▸ hi) with ⟨hk, -⟩ | hc | ⟨hsup, honly⟩
  · exact absurd hk hkind
  · refine .inl (hc.congr howner (he.name i) hfull fun q hq => ?_)
    have hq' := hup q (howner.trans hq)
    rw [he.kind] at hq'
    exact (he.stayed_of_kind hs hq').2
  · refine .inr ⟨hsup.congr (he.isBound i) (by rw [he.kind]), fun c hc => ?_⟩
    rw [he.kind]
    by_cases hck : d.hierarchy.kind c = .enum
    · exact hck
    · exact honly c ((he.stayed_of_kind hs hck).1 ▸ hc)

theorem Build.InvokersMade.settled_of_lt (hm : InvokersMade h h') (ho : h.Orderly)
    (hi : i < h.size) (hset : h.Settled i) : h'.Settled i := by
  rcases hset with hc | ⟨hsup, honly⟩
  · exact .inl (hc.of_native (hm.owner hi) (hm.native hi) fun q hq => hm.native (ho.owner_lt hq))
  · refine .inr ⟨hsup.congr (Hierarchy.isBound_of_native (hm.native hi)) (hm.kind hi),
      fun c hc => ?_⟩
    by_cases hlt : c < h.size
    · rw [hm.kind hlt]
      exact honly c ((hm.owner hlt).symm.trans hc)
    · -- An invoker stands beside an interface, which is not an enum.
      obtain ⟨-, -, q, x, hq, hx, hkx⟩ :=
        hm.made (Nat.not_lt.1 hlt) (Hierarchy.lt_size_of_owner_ne (by simp [hc]))
      cases Owner.element.inj (hc.symm.trans hq)
      rw [honly x hx] at hkx
      cases hkx

theorem Build.InvokersMade.allSettled (hm : InvokersMade h h') (ho : h.Orderly)
    (hall : h.AllSettled) : h'.AllSettled := by
  rintro i hi ⟨hkind, hup⟩
  by_cases hlt : i < h.size
  · refine hm.settled_of_lt ho hlt (hall i (hm.owner hlt ▸ hi) ⟨?_, fun q hq => ?_⟩)
    · rw [← hm.kind hlt]
      exact hkind
    · rw [← hm.kind (ho.owner_lt hq)]
      exact hup q ((hm.owner hlt).trans hq)
  · exact .inl (hm.made (Nat.not_lt.1 hlt) (Hierarchy.lt_size_of_owner_ne hi)).2.1

theorem Build.Finished.allSettled (hf : Finished h h') (hall : h.AllSettled) : h'.AllSettled := by
  rintro i hi ⟨hkind, hup⟩
  have howner := hf.owner hi
  rw [hf.kind] at hkind
  rcases hall i (howner ▸ hi) ⟨hkind, fun q hq => by
    rw [← hf.kind]
    exact hup q (howner.trans hq)⟩ with hc | ⟨hsup, honly⟩
  · exact .inl (hf.composed hi hc)
  · refine .inr ⟨hsup.congr (Hierarchy.isBound_of_native (hf.native i)) (by rw [hf.kind]),
      fun c hc => ?_⟩
    rw [hf.kind]
    exact honly c ((hf.owner (by simp [hc])).symm.trans hc)

/-! ### The whole build -/

/-- No name that a build starts from has a colon. -/
structure Colonfree (p : Plan) (rs : List Record) : Prop where
  settings : p.settings.Colonless
  records : ∀ head ∈ Record.headsOf rs, Colonless head.name

namespace Stages

variable (hst : Stages p rs d₁ d₂ d₃ d₄ d₅ d₆ d') (hc : Colonfree p rs)
include hst hc

theorem indexed_supported : d₂.Indexed := by
  have hblank : p.blank.Indexed := by
    refine ⟨fun i hi => absurd hi (Nat.not_lt_zero i), ?_, fun _ => rfl, ?_, ?_⟩
    · intro k e hk
      cases hk
    · intro k e hk
      cases hk
    · intro i hi
      exact absurd (Hierarchy.lt_size_of_owner_ne hi) (Nat.not_lt_zero i)
  have h₁ : d₁.Indexed ∧ AllBound d₁.hierarchy :=
    (sound_blank.induction Intake.sound
      (fun hs hsound hx => indexed_of_intake hc.records hs hsound hx.1 hx.2)
      (intake_of_ingest hst.ingest) ⟨hblank, fun i hi => absurd hi (Nat.not_lt_zero i)⟩).2
  exact (hst.sound_ingested.induction Support.sound
    (fun hs hsound hx => indexed_of_support hc.settings hs hsound hx) hst.support h₁.1).2

/-- Before enums are nested, only those at the top are not settled. -/
theorem placed_named (hi : d₄.hierarchy.owner i ≠ .detached) :
    d₄.hierarchy.kind i = .enum ∧ d₄.hierarchy.owner i = .root ∨ d₄.hierarchy.Settled i := by
  have hsame := hst.namedOver.toSameNative
  rw [hsame.owner] at hi ⊢
  unfold Hierarchy.Settled Hierarchy.Supports
  rw [hsame.owner, hsame.kind, hsame.isBound]
  exact (hst.types.placed (hst.indexed_supported hc) hst.sound_supported hi).imp_right
    fun hset => hset.imp_left hsame.composed

theorem allSettled_enclosed : d₅.hierarchy.AllSettled :=
  hst.enums.allSettled hst.sound_named fun _ hi => hst.placed_named hc hi

theorem allSettled_finished : d'.hierarchy.AllSettled :=
  hst.finish.allSettled
    (hst.invokers.allSettled hst.sound_enclosed.orderly (hst.allSettled_enclosed hc))

end Stages

/-- An owner of something that is not an enum is composed. -/
theorem Hierarchy.AllSettled.composed_of_owns (hall : h.AllSettled) (ho : h.Orderly)
    (hi : h.OutsideEnums i) (hij : h.owner j = .element i) (hj : h.kind j ≠ .enum) :
    h.Composed i := by
  rcases hall i (ho.owner_ne_detached_of_owns hij) hi with hc | ⟨-, honly⟩
  · exact hc
  · exact absurd (honly j hij) hj

/-- An element outside and not below any enum, other than a supporting type, has the full name of
its chain. -/
theorem Hierarchy.AllSettled.fullName_eq_chain (hall : h.AllSettled) (ho : h.Orderly)
    (hi : h.owner i ≠ .detached) (hsup : ¬ h.Supports i)
    (hk : ∀ j, h.Covers j i → h.kind j ≠ .enum) : h.fullName i = h.chainFullName i := by
  have houtside : ∀ {j : ElementId}, h.Covers j i → h.OutsideEnums j :=
    fun hj => ⟨hk _ hj, fun q hq => hk q ((Hierarchy.Covers.of_owner hq).trans hj)⟩
  refine Hierarchy.fullName_eq_chain ho.toGrounded ?_
  rintro j (rfl | ha)
  · exact (hall i hi (houtside (.refl _ i))).composed hsup
  · -- Whatever stands above `i` owns something that is no enum.
    obtain ⟨c, hjc, hci⟩ := Relation.TransGen.head'_iff.1 ha
    have hcover : h.Covers c i := by
      rcases Relation.reflTransGen_iff_eq_or_transGen.1 hci with rfl | hci
      · exact .refl _ _
      · exact .inr hci
    exact hall.composed_of_owns ho (houtside (.inr ha)) hjc (hk c hcover)

/-- At the end of a build an element of a record, or an invoker, that is no enum and stands below
none has the full name that its chain of owners gives. -/
theorem fullName_of_build (hc : Colonfree p rs) (hb : (p.build rs).result = .ok h)
    (hi : i ∈ h.walkAll) (hmade : (h.element i).isBound = true ∨ h.kind i = .invoker)
    (hk : ∀ j ∈ i :: h.ancestors i, h.kind j ≠ .enum) : h.fullName i = h.chainFullName i := by
  obtain ⟨d, hd, rfl⟩ := build_ok hb
  obtain ⟨d₁, d₂, d₃, d₄, d₅, d₆, hst⟩ := stages_of_passes hd
  have ho := hst.sound_finished.orderly
  have hall := hst.allSettled_finished hc
  refine hall.fullName_eq_chain ho (ho.mem_walkAll_iff.1 hi) ?_ ?_
  · rcases hmade with hbound | hinvoker
    · exact Hierarchy.not_supports_of_isBound hbound
    · exact Hierarchy.not_supports_of_kind (by simp [hinvoker]) (by simp [hinvoker])
  · rintro j (rfl | ha)
    · exact hk _ List.mem_cons_self
    · exact hk j (List.mem_cons_of_mem _ (ho.mem_ancestors.2 ha))

theorem colonfree_sample : Colonfree samplePlan sampleRecords := by
  refine ⟨⟨?_, ?_, ?_⟩, ?_⟩
  all_goals
    unfold Colonless
    decide +kernel

/-- A class that is nested under another. -/
theorem fullName_of_sample : ∃ h, (samplePlan.build sampleRecords).result = .ok h ∧
    4 ∈ h.walkAll ∧ h.fullName 4 = h.chainFullName 4 := by
  obtain ⟨h, hb, hq⟩ := exists_built samplePlan sampleRecords
    (fun h => decide (4 ∈ h.walkAll) && (h.element 4).isBound &&
      (4 :: h.ancestors 4).all fun j => decide (h.kind j ≠ .enum)) (by decide +kernel)
  simp only [Bool.and_eq_true, decide_eq_true_eq, List.all_eq_true] at hq
  obtain ⟨⟨hmem, hbound⟩, hkinds⟩ := hq
  exact ⟨h, hb, hmem, fullName_of_build colonfree_sample hb hmem (.inl hbound) hkinds⟩

end BindingTree

import BindingTree.Proofs.Build.BaseTypes

/-! Interfaces and their invokers at the end of a build. Each invoker calls one interface and each
interface that needs an invoker has one, beside it; the two links go both ways, and no other element
has either of them. Finding base types and marking elements change no link, so all this follows from
how invokers are made. -/

namespace BindingTree

open Build Naming

/-- An invoker and the interface that it calls. -/
structure Hierarchy.Calls (h : Hierarchy) (j i : ElementId) : Prop where
  caller : ∃ facts, (h.element j).payload = .type .invoker facts ∧ facts.invoked = some i ∧
    facts.info.visibility = .internal
  callee : ∃ facts, (h.element i).payload = .type .iface facts ∧ facts.invoker = some j ∧
    facts.needsNoInvoker = false
  name : (h.element j).name = invokerName (h.element i).name
  beside : h.owner j = h.owner i ∧ ∃ p, h.owner i = .element p
  reached : i ∈ h.walkAll ∧ j ∈ h.walkAll

/-- The invoker that an element is linked to. -/
def Element.invoker? (e : Element) : Option ElementId := e.facts?.bind TypeFacts.invoker

/-- The interface that an element is linked to. -/
def Element.invoked? (e : Element) : Option ElementId := e.facts?.bind TypeFacts.invoked

variable {p : Plan} {rs : List Record} {s : Settings} {d' d₁ d₂ d₃ d₄ d₅ d₆ : Draft}
  {ix : Index} {h : Hierarchy} {i j : ElementId} {n : Nat} {e : Element} {tk : TypeKind}
  {facts : TypeFacts} {payload payload' : Payload}

theorem Element.of_invoker? (he : e.invoker? = some j) :
    ∃ tk facts, e.payload = .type tk facts ∧ facts.invoker = some j := by
  obtain ⟨facts, hfacts, hj⟩ := Option.bind_eq_some_iff.1 he
  obtain ⟨tk, hp⟩ := payload_of_facts? hfacts
  exact ⟨tk, facts, hp, hj⟩

theorem Element.of_invoked? (he : e.invoked? = some i) :
    ∃ tk facts, e.payload = .type tk facts ∧ facts.invoked = some i := by
  obtain ⟨facts, hfacts, hi⟩ := Option.bind_eq_some_iff.1 he
  obtain ⟨tk, hp⟩ := payload_of_facts? hfacts
  exact ⟨tk, facts, hp, hi⟩

/-! ### Finding base types changes no link -/

namespace Build.Resolved

theorem of_type (hr : Resolved s ix i payload payload') (hp : payload = .type tk facts) :
    ∃ bases, payload' = .type tk { facts with bases } := by
  cases hr with
  | found =>
    cases hp
    exact ⟨_, rfl⟩
  | fixed =>
    cases hp
    exact ⟨_, rfl⟩
  | other hother => exact absurd hp (hother _ _)

theorem type_of (hr : Resolved s ix i payload payload') (hp : payload' = .type tk facts) :
    ∃ bases, payload = .type tk { facts with bases } := by
  cases hr with
  | found =>
    cases hp
    exact ⟨_, rfl⟩
  | fixed =>
    cases hp
    exact ⟨_, rfl⟩
  | other hother => exact absurd hp (hother _ _)

end Build.Resolved

theorem payload_of_lacksInvoker (he : lacksInvoker e = true) :
    ∃ facts, e.payload = .type .iface facts ∧ facts.needsNoInvoker = false := by
  unfold lacksInvoker at he
  rw [Bool.and_eq_true, Option.any_eq_true] at he
  obtain ⟨hkind, facts, hfacts, hlacks⟩ := he
  obtain ⟨tk, hp⟩ := payload_of_facts? hfacts
  have htk : tk.kind = .iface := (congrArg Payload.kind hp).symm.trans (of_decide_eq_true hkind)
  obtain rfl : tk = .iface := by cases tk <;> first | rfl | cases htk
  exact ⟨facts, hp, by simpa using (Bool.and_eq_true_iff.1 hlacks).2⟩

namespace Stages

variable (hst : Stages p rs d₁ d₂ d₃ d₄ d₅ d₆ d')
include hst

/-- An interface that lacked an invoker and the invoker that was made for it. -/
theorem calls (hn : (lacking d₅.hierarchy)[n]? = some i) :
    d'.hierarchy.Calls (d₅.hierarchy.size + n) i := by
  have hmade := hst.called.made hn
  have hmem : i ∈ lacking d₅.hierarchy := List.mem_of_getElem? hn
  obtain ⟨hwalk, hlacks⟩ := List.mem_filter.1 hmem
  obtain ⟨facts, hp, hneeds⟩ := payload_of_lacksInvoker hlacks
  have hilt : i < d₅.hierarchy.size := hst.sound_enclosed.orderly.lt_size_of_mem_walkAll hwalk
  have hilt' : i < d₆.hierarchy.size := Nat.lt_of_lt_of_le hilt hst.invokers.size
  have hjlt : d₅.hierarchy.size + n < d₆.hierarchy.size := hst.called.lt_size hn
  have hi₆ : d₆.hierarchy.payload i =
      .type .iface { facts with invoker := some (d₅.hierarchy.size + n) } := by
    rw [hmade.interface, Hierarchy.payload, hp]
    rfl
  have hj₆ : d₆.hierarchy.payload (d₅.hierarchy.size + n) =
      invokerPayload p.settings d₅.hierarchy i := hmade.invoker
  obtain ⟨ibases, hi'⟩ := (hst.resolved.2 i).of_type hi₆
  obtain ⟨jbases, hj'⟩ := (hst.resolved.2 _).of_type hj₆
  have hiw : i ∈ d'.hierarchy.walkAll := by
    refine hst.mem_walkAll_of_kind hilt' fun himpl => ?_
    rw [show d₆.hierarchy.kind i = .iface from congrArg Payload.kind hi₆] at himpl
    cases himpl
  have hjw : d₅.hierarchy.size + n ∈ d'.hierarchy.walkAll := by
    refine hst.mem_walkAll_of_kind hjlt fun himpl => ?_
    rw [show d₆.hierarchy.kind _ = .invoker from congrArg Payload.kind hj₆] at himpl
    cases himpl
  have ho := hst.sound_finished.orderly
  have howner : d'.hierarchy.owner i = d₅.hierarchy.owner i :=
    (hst.finish.owner (ho.mem_walkAll_iff.1 hiw)).trans (hst.invokers.owner hilt)
  refine ⟨⟨_, hj', rfl, rfl⟩, ⟨_, hi', rfl, hneeds⟩, ?_, ⟨?_, ?_⟩, hiw, hjw⟩
  · rw [Hierarchy.name_of_native (hst.finish.native _), hmade.name,
      Hierarchy.name_of_native (hst.finish.native i),
      Hierarchy.name_of_native (hst.invokers.native hilt)]
  · rw [hst.finish.owner (ho.mem_walkAll_iff.1 hjw), hmade.owner, howner]
  · rw [howner]
    exact hmade.owned

/-- A link to an invoker comes from an interface that lacked one. -/
theorem lacking_of_invoker (hp : d'.hierarchy.payload i = .type tk facts)
    (hj : facts.invoker = some j) :
    ∃ n : Nat, (lacking d₅.hierarchy)[n]? = some i ∧ j = d₅.hierarchy.size + n := by
  obtain ⟨bases, hp₆⟩ := (hst.resolved.2 i).type_of hp
  rcases hst.payload_called i with ⟨-, hsame⟩ | ⟨n, hn, hmade⟩ | ⟨n, f, hn, rfl, hmade⟩
  · have hnone := (hst.facts_enclosed (hsame.symm.trans hp₆)).2.invoker
    cases hj.symm.trans hnone
  · obtain ⟨facts', -, hfacts⟩ := Payload.of_calledBy (hmade.interface.symm.trans hp₆)
    have hlink : some (d₅.hierarchy.size + n) = facts.invoker := congrArg TypeFacts.invoker hfacts
    exact ⟨n, hn, (Option.some.inj (hlink.trans hj)).symm⟩
  · rw [hmade.invoker] at hp₆
    have hlink : none = facts.invoker := congrArg TypeFacts.invoker (Payload.type.inj hp₆).2
    cases hlink.trans hj

/-- An invoker, or a link to an interface, comes from an interface that lacked an invoker. -/
theorem lacking_of_invoked (hp : d'.hierarchy.payload j = .type tk facts)
    (hj : tk = .invoker ∨ facts.invoked ≠ none) :
    ∃ (n : Nat) (i : ElementId), (lacking d₅.hierarchy)[n]? = some i ∧ j = d₅.hierarchy.size + n ∧
      facts.invoked = some i := by
  obtain ⟨bases, hp₆⟩ := (hst.resolved.2 j).type_of hp
  -- What was there before the invokers is none and calls nothing.
  have hold : ∀ {facts' : TypeFacts}, d₅.hierarchy.payload j = .type tk facts' →
      facts'.invoked = facts.invoked → False := by
    intro facts' hp₅ hsame
    obtain ⟨hne, hunlinked⟩ := hst.facts_enclosed hp₅
    exact hj.elim hne fun hsome => hsome (hsame.symm.trans hunlinked.invoked)
  rcases hst.payload_called j with ⟨-, hsame⟩ | ⟨n, hn, hmade⟩ | ⟨n, f, hn, rfl, hmade⟩
  · exact (hold (hsame.symm.trans hp₆) rfl).elim
  · obtain ⟨facts', hp₅, hfacts⟩ := Payload.of_calledBy (hmade.interface.symm.trans hp₆)
    have hinvoked := congrArg TypeFacts.invoked hfacts
    exact (hold hp₅ hinvoked).elim
  · refine ⟨n, f, hn, rfl, ?_⟩
    rw [hmade.invoker] at hp₆
    exact (congrArg TypeFacts.invoked (Payload.type.inj hp₆).2).symm

/-- An interface that needs an invoker lacked one before invokers were made. -/
theorem lacking_of_needed (hp : d'.hierarchy.payload i = .type .iface facts)
    (hneeds : facts.needsNoInvoker = false) : ∃ n : Nat, (lacking d₅.hierarchy)[n]? = some i := by
  obtain ⟨bases, hp₆⟩ := (hst.resolved.2 i).type_of hp
  rcases hst.payload_called i with ⟨hnot, hsame⟩ | ⟨n, hn, -⟩ | ⟨n, f, hn, rfl, hmade⟩
  · have hp₅ := hsame.symm.trans hp₆
    have hkind : d₅.hierarchy.kind i = .iface := congrArg Payload.kind hp₅
    have hlt : i < d₅.hierarchy.size := Hierarchy.lt_size_of_kind_ne (by simp [hkind])
    have ho := hst.sound_enclosed.orderly
    refine absurd (List.mem_filter.2 ⟨ho.mem_walkAll_iff.2 fun hdet => ?_, ?_⟩) hnot
    · cases hkind.symm.trans (ho.attached hlt hdet)
    · have hnone := (hst.facts_enclosed hp₅).2.invoker
      have hfacts : (d₅.hierarchy.element i).facts? = some { facts with bases } := by
        rw [Hierarchy.payload] at hp₅
        rw [Element.facts?, hp₅]
      have hk : (d₅.hierarchy.element i).kind = .iface := hkind
      simp only at hnone
      simp [lacksInvoker, hk, hfacts, hnone, hneeds]
  · exact ⟨n, hn⟩
  · rw [hmade.invoker] at hp₆
    cases hp₆

end Stages

/-! ### The whole build -/

/-- Interfaces and invokers at the end of a build are paired. Each interface that is reached from
the top and needs an invoker has one that calls it, each invoker calls exactly one interface, two
interfaces share none, and every link is one of such a pair. -/
theorem invokers_of_build (hb : (p.build rs).result = .ok h) :
    (∀ i ∈ h.walkAll, ∀ facts, (h.element i).payload = .type .iface facts →
        facts.needsNoInvoker = false → ∃ j, facts.invoker = some j ∧ h.Calls j i) ∧
      (∀ j < h.size, h.kind j = .invoker →
        ∃! i, h.kind i = .iface ∧ (h.element i).invoker? = some j) ∧
      (∀ i i' j, (h.element i).invoker? = some j → (h.element i').invoker? = some j → i = i') ∧
      (∀ i j, (h.element i).invoker? = some j → h.Calls j i) ∧
      ∀ i j, (h.element j).invoked? = some i → h.Calls j i := by
  obtain ⟨d, hd, rfl⟩ := build_ok hb
  obtain ⟨d₁, d₂, d₃, d₄, d₅, d₆, hst⟩ := stages_of_passes hd
  have hlink : ∀ {i j : ElementId}, (d.hierarchy.element i).invoker? = some j →
      ∃ n : Nat, (lacking d₅.hierarchy)[n]? = some i ∧ j = d₅.hierarchy.size + n := by
    intro i j hi
    obtain ⟨tk, facts, hp, hj⟩ := Element.of_invoker? hi
    exact hst.lacking_of_invoker hp hj
  have hunique : ∀ i i' j, (d.hierarchy.element i).invoker? = some j →
      (d.hierarchy.element i').invoker? = some j → i = i' := by
    intro i i' j hi hi'
    obtain ⟨n, hn, rfl⟩ := hlink hi
    obtain ⟨m, hm, heq⟩ := hlink hi'
    obtain rfl := Nat.add_left_cancel heq
    exact Option.some.inj (hn.symm.trans hm)
  refine ⟨fun i _ facts hp hneeds => ?_, fun j _ hk => ?_, hunique, fun i j hi => ?_,
    fun i j hj => ?_⟩
  · obtain ⟨n, hn⟩ := hst.lacking_of_needed hp hneeds
    have hcalls := hst.calls hn
    obtain ⟨facts', hp', hj, -⟩ := hcalls.callee
    cases hp.symm.trans hp'
    exact ⟨_, hj, hcalls⟩
  · obtain ⟨facts, hp⟩ := Payload.exists_of_invoker (hk : (d.hierarchy.payload j).kind = .invoker)
    obtain ⟨n, i, hn, rfl, -⟩ := hst.lacking_of_invoked hp (.inl rfl)
    obtain ⟨facts', hp', hinvoker, -⟩ := (hst.calls hn).callee
    have hi : (d.hierarchy.element i).invoker? = some (d₅.hierarchy.size + n) := by
      rw [Element.invoker?, Element.facts?, hp']
      exact hinvoker
    refine ⟨i, ⟨congrArg Payload.kind hp', hi⟩, fun i' hi' => hunique i' i _ hi'.2 hi⟩
  · obtain ⟨n, hn, rfl⟩ := hlink hi
    exact hst.calls hn
  · obtain ⟨tk, facts, hp, hi⟩ := Element.of_invoked? hj
    obtain ⟨n, i', hn, rfl, hi'⟩ := hst.lacking_of_invoked hp (.inr (by simp [hi]))
    obtain rfl := Option.some.inj (hi.symm.trans hi')
    exact hst.calls hn

/-- An interface that nests by name, and two of one name in one place. -/
def facedRecords : List Record :=
  [.plain (.ns {}) "a"
    [.plain (.cls {}) "Outer" [], .plain (.iface {}) "Outer.Face" [], .plain (.iface {}) "Face" [],
      .plain (.iface {}) "Face" []]]

theorem invokers_of_faced : ∃ h, (samplePlan.build facedRecords).result = .ok h ∧ h.Calls 9 2 ∧
    h.Calls 10 3 ∧ h.Calls 11 4 ∧ ∃! i, h.kind i = .iface ∧ (h.element i).invoker? = some 10 := by
  obtain ⟨h, hb, hq⟩ := exists_built samplePlan facedRecords
    (fun h => decide (2 ∈ h.walkAll) && decide ((h.element 2).payload =
        .type .iface { bases := some [6], invoker := some 9 }) &&
      decide ((h.element 3).invoker? = some 10) && decide ((h.element 11).invoked? = some 4) &&
        decide (10 < h.size) && decide (h.kind 10 = .invoker)) (by decide +kernel)
  simp only [Bool.and_eq_true, decide_eq_true_eq] at hq
  obtain ⟨⟨⟨⟨⟨hmem, hp⟩, hinvoker⟩, hinvoked⟩, hlt⟩, hkind⟩ := hq
  obtain ⟨hneeds, hone, -, hlink, hlink'⟩ := invokers_of_build hb
  obtain ⟨j, hj, hcalls⟩ := hneeds 2 hmem _ hp rfl
  cases hj
  exact ⟨h, hb, hcalls, hlink 3 10 hinvoker, hlink' 4 11 hinvoked, hone 10 hlt hkind⟩

end BindingTree

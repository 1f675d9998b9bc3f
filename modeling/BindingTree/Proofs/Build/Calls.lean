import BindingTree.Proofs.Build.Payloads

/-! Which invoker calls which interface. The interfaces that lack an invoker are listed before any
invoker is made, and each of them gets one fresh element, in the order of the list. So an invoker
and its interface have the same position, one among the fresh elements and one in the list, and as
nothing is listed twice neither is shared. -/

namespace BindingTree

open Build Naming

/-- A payload with a link to an invoker. -/
def Payload.calledBy (invoker : ElementId) : Payload → Payload :=
  Payload.mapFacts fun facts => { facts with invoker := some invoker }

theorem Payload.kind_calledBy (invoker : ElementId) (payload : Payload) :
    (payload.calledBy invoker).kind = payload.kind := by
  cases payload <;> rfl

/-- With a link to an invoker, a type is what it was but for the link. -/
theorem Payload.of_calledBy {invoker : ElementId} {payload : Payload} {tk : TypeKind}
    {facts : TypeFacts} (hp : payload.calledBy invoker = .type tk facts) :
    ∃ facts', payload = .type tk facts' ∧ { facts' with invoker := some invoker } = facts := by
  cases payload with
  | type tk' facts' =>
    cases hp
    exact ⟨facts', rfl, rfl⟩
  | _ => cases hp

theorem Payload.exists_of_invoker {payload : Payload} (hk : payload.kind = .invoker) :
    ∃ facts, payload = .type .invoker facts := by
  cases payload with
  | type tk facts => cases tk <;> first | exact ⟨facts, rfl⟩ | cases hk
  | _ => cases hk

/-- What the invoker of an interface holds. -/
def invokerPayload (s : Settings) (h : Hierarchy) (interface : ElementId) : Payload :=
  .type .invoker
    { info := { visibility := .internal }
      baseNames := [s.rootType, h.fullName interface]
      invoked := some interface }

namespace Build

/-- An element was made as the invoker of an interface. -/
structure MadeFor (s : Settings) (h h' : Hierarchy) (i j : ElementId) : Prop where
  interface : h'.payload i = (h.payload i).calledBy j
  invoker : h'.payload j = invokerPayload s h i
  name : (h'.element j).name = invokerName (h.element i).name
  owner : h'.owner j = h.owner i
  owned : ∃ p, h.owner i = .element p

/-- Each interface of a list got an invoker, in the order of the list. -/
structure Called (s : Settings) (is : List ElementId) (h h' : Hierarchy) : Prop where
  size : h'.size = h.size + is.length
  others : ∀ i < h.size, i ∉ is → h'.payload i = h.payload i
  made : ∀ {n : Nat} {i : ElementId}, is[n]? = some i → MadeFor s h h' i (h.size + n)

variable {pl : Plan} {p : Plan} {rs : List Record} {s : Settings}
  {d d' d₁ d₂ d₃ d₄ d₅ d₆ : Draft} {h h' h'' : Hierarchy} {i j q : ElementId} {is : List ElementId}

/-! ### One invoker -/

/-- A made invoker stays as it is while others are made. -/
theorem MadeFor.later (hm : MadeFor s h h' i j) (hi : h''.payload i = h'.payload i)
    (hj : h''.payload j = h'.payload j) (hname : (h''.element j).name = (h'.element j).name)
    (howner : h''.owner j = h'.owner j) : MadeFor s h h'' i j where
  interface := hi.trans hm.interface
  invoker := hj.trans hm.invoker
  name := hname.trans hm.name
  owner := howner.trans hm.owner
  owned := hm.owned

/-- Nor does it matter that others were made before. -/
theorem MadeFor.earlier (hm : MadeFor s h' h'' i j) (hi : h'.payload i = h.payload i)
    (hnative : (h'.element i).native = (h.element i).native) (howner : h'.owner i = h.owner i) :
    MadeFor s h h'' i j where
  interface := by rw [hm.interface, hi]
  invoker := by
    rw [hm.invoker, invokerPayload, invokerPayload, Hierarchy.fullName,
      Hierarchy.fullName_of_native hnative, Hierarchy.fullName]
  name := by rw [hm.name, Hierarchy.name_of_native hnative]
  owner := hm.owner.trans howner
  owned := howner ▸ hm.owned

theorem called_of_make (hd : makeInvoker pl i d = .ok () d') :
    Called pl.settings [i] d.hierarchy d'.hierarchy := by
  obtain ⟨q, d₁, r, hq, hassign, -, rfl⟩ := makeInvoker_ok hd
  have hlt : i < d.hierarchy.size := Hierarchy.lt_size_of_owner_ne (by simp [hq])
  have hf : d.hierarchy.Fresh (besideInterface pl d.hierarchy q i) (.element q)
    (invokerOf pl.settings d.hierarchy q i) := .putBelow
  have hnamed := namedOver_of_assign hassign
  have hpayload : ∀ j, d₁.hierarchy.payload j = (besideInterface pl d.hierarchy q i).payload j := by
    intro j
    obtain ⟨managed, r, -, rfl, -⟩ := assignManagedName_ok hassign
    exact Hierarchy.congr_element_modify Element.payload fun _ => rfl
  have hsize : d₁.hierarchy.size = d.hierarchy.size + 1 := hnamed.size.trans hf.size
  have hlt₁ : i < d₁.hierarchy.size := hsize ▸ Nat.lt_succ_of_lt hlt
  have hne : d.hierarchy.size ≠ i := Nat.ne_of_gt hlt
  -- Only the interface is changed after its invoker has been made.
  have hlast : ∀ j, j ≠ i → (d₁.hierarchy.modify i
      (Element.withFacts fun f => { f with invoker := some d.hierarchy.size })).element j =
        d₁.hierarchy.element j := fun j => Hierarchy.element_modify_of_ne
  refine ⟨?_, fun j hj hnot => ?_, fun {n j} hj => ?_⟩
  · rw [Hierarchy.size_modify, hsize]
    rfl
  · rw [List.mem_singleton] at hnot
    rw [Hierarchy.payload, hlast j hnot, ← Hierarchy.payload, hpayload]
    exact payload_fresh hf hj
  · obtain ⟨rfl, rfl⟩ : n = 0 ∧ i = j := by
      cases n with
      | zero => exact ⟨rfl, Option.some.inj hj⟩
      | succ n => cases hj
    rw [Nat.add_zero]
    refine ⟨?_, ?_, ?_, ?_, q, hq⟩
    · rw [Hierarchy.payload, Hierarchy.element_modify_self hlt₁, Element.payload_withFacts,
        ← Hierarchy.payload, hpayload, payload_fresh hf hlt, Payload.calledBy]
    · rw [Hierarchy.payload, hlast _ hne, ← Hierarchy.payload, hpayload, Hierarchy.payload,
        hf.element_new]
      rfl
    · rw [hlast _ hne, hnamed.name, hf.element_new]
      rfl
    · rw [Hierarchy.owner_modify, hnamed.owner, hf.owner_new, hq]

/-! ### The pass -/

theorem Called.lt_size {n : Nat} (hc : Called s is h h') (hn : is[n]? = some i) :
    h.size + n < h'.size := by
  rw [hc.size]
  exact Nat.add_lt_add_left (List.getElem?_eq_some_iff.1 hn).1 _

/-- An element was there before, is an invoker that was made, or is not there. -/
theorem Called.before_or_made (hc : Called s is h h') (j : ElementId) :
    j < h.size ∨ (∃ n i, is[n]? = some i ∧ j = h.size + n) ∨ h'.size ≤ j := by
  rcases Nat.lt_or_ge j h.size with hlt | hle
  · exact .inl hlt
  obtain ⟨n, rfl⟩ := Nat.exists_eq_add_of_le hle
  cases hn : is[n]? with
  | some i => exact .inr (.inl ⟨n, i, hn, rfl⟩)
  | none =>
    rw [hc.size]
    exact .inr (.inr (Nat.add_le_add_left (List.getElem?_eq_none_iff.1 hn) _))

theorem Called.cons (h₁ : Called s [i] h h') (h₂ : Called s is h' h'') (hm : InvokersMade h h')
    (hm' : InvokersMade h' h'') (hnot : i ∉ is) (hlt : ∀ j ∈ i :: is, j < h.size) :
    Called s (i :: is) h h'' := by
  have hsize : h'.size = h.size + 1 := h₁.size
  have hnew : h.size < h'.size := hsize ▸ Nat.lt_succ_self _
  have hfresh : h.size ∉ is := fun hmem => Nat.lt_irrefl _ (hlt _ (List.mem_cons_of_mem _ hmem))
  refine ⟨?_, fun j hj hjs => ?_, fun {n j} hj => ?_⟩
  · rw [h₂.size, hsize, List.length_cons, Nat.add_assoc, Nat.add_comm 1]
  · rw [List.mem_cons, not_or] at hjs
    rw [h₂.others j (Nat.lt_trans hj hnew) hjs.2, h₁.others j hj (by simpa using hjs.1)]
  · have hjlt : j < h.size := hlt j (List.mem_of_getElem? hj)
    cases n with
    | zero =>
      obtain rfl : i = j := Option.some.inj hj
      exact (h₁.made (n := 0) rfl).later (h₂.others i (Nat.lt_trans hjlt hnew) hnot)
        (h₂.others _ hnew hfresh) (Hierarchy.name_of_native (hm'.native hnew)) (hm'.owner hnew)
    | succ n =>
      have hj' : is[n]? = some j := hj
      have hne : j ∉ [i] := fun hmem => hnot (List.mem_singleton.1 hmem ▸ List.mem_of_getElem? hj')
      have hmade := h₂.made hj'
      rw [hsize, Nat.add_assoc, Nat.add_comm 1] at hmade
      exact hmade.earlier (h₁.others j hjlt hne) (hm.native hjlt) (hm.owner hjlt)

theorem called_of_forM (hs : d.Sound) (hc : Callable is d.hierarchy) (hn : is.Nodup)
    (hd : is.forM (makeInvoker pl) d = .ok () d') :
    Called pl.settings is d.hierarchy d'.hierarchy := by
  induction is generalizing d with
  | nil =>
    obtain ⟨-, rfl⟩ := pure_ok.1 hd
    exact ⟨rfl, fun _ _ _ => rfl, fun hj => absurd hj (by simp)⟩
  | cons i is ih =>
    obtain ⟨_, d₁, hi, hrest⟩ := bind_ok.1 hd
    obtain ⟨hnot, hnodup⟩ := List.nodup_cons.1 hn
    have hk := (hc i List.mem_cons_self).2
    obtain ⟨hs₁, hmade⟩ := invokersMade_of_make hs hk hi
    have hc₁ := hc.tail hmade
    exact (called_of_make hi).cons (ih hs₁ hc₁ hnodup hrest) hmade
      (invokersMade_of_forM hs₁ hc₁ hrest).2.1 hnot fun j hj => (hc j hj).1

/-- The interfaces that lack an invoker. -/
def lacking (h : Hierarchy) : List ElementId := h.walkAll.filter fun i => lacksInvoker (h.element i)

theorem called_of_makeInvokers (hs : d.Sound) (hd : makeInvokers pl d = .ok () d') :
    Called pl.settings (lacking d.hierarchy) d.hierarchy d'.hierarchy := by
  obtain ⟨_, _, hh, hmake⟩ := bind_ok.1 hd
  obtain ⟨rfl, rfl⟩ := hierarchy_ok.1 hh
  exact called_of_forM hs (callable_of_lacking hs.orderly)
    (hs.orderly.nodup_walkAll.filter _) hmake

end Build

namespace Stages

variable (hst : Stages p rs d₁ d₂ d₃ d₄ d₅ d₆ d')
include hst

theorem called : Called p.settings (lacking d₅.hierarchy) d₅.hierarchy d₆.hierarchy :=
  called_of_makeInvokers hst.sound_enclosed hst.calling

/-- What a type holds after invokers are made: what it held before, with a link if it lacked an
invoker, or what an invoker holds. -/
theorem payload_called (i : ElementId) :
    (i ∉ lacking d₅.hierarchy ∧ d₆.hierarchy.payload i = d₅.hierarchy.payload i) ∨
      (∃ n, (lacking d₅.hierarchy)[n]? = some i ∧
        MadeFor p.settings d₅.hierarchy d₆.hierarchy i (d₅.hierarchy.size + n)) ∨
      ∃ n f, (lacking d₅.hierarchy)[n]? = some f ∧ i = d₅.hierarchy.size + n ∧
        MadeFor p.settings d₅.hierarchy d₆.hierarchy f i := by
  have hcalled := hst.called
  rcases hcalled.before_or_made i with hlt | ⟨n, f, hn, rfl⟩ | hle
  · by_cases hmem : i ∈ lacking d₅.hierarchy
    · obtain ⟨n, hn⟩ := List.mem_iff_getElem?.1 hmem
      exact .inr (.inl ⟨n, hn, hcalled.made hn⟩)
    · exact .inl ⟨hmem, hcalled.others i hlt hmem⟩
  · exact .inr (.inr ⟨n, f, hn, rfl, hcalled.made hn⟩)
  · have hle₅ : d₅.hierarchy.size ≤ i := Nat.le_trans hst.invokers.size hle
    refine .inl ⟨fun hmem => Nat.not_lt.2 hle₅ ?_, ?_⟩
    · exact hst.sound_enclosed.orderly.lt_size_of_mem_walkAll (List.mem_filter.1 hmem).1
    · rw [Hierarchy.payload, Hierarchy.payload, Hierarchy.element, Hierarchy.element,
        Hierarchy.node_of_size_le hle, Hierarchy.node_of_size_le hle₅]

/-- An invoker holds what was made for an interface that lacked one. -/
theorem payload_of_invoker (hk : d₆.hierarchy.kind j = .invoker) :
    ∃ f, f < d₅.hierarchy.size ∧ d₅.hierarchy.kind f = .iface ∧
      d₆.hierarchy.payload j = invokerPayload p.settings d₅.hierarchy f := by
  have hcallable := callable_of_lacking hst.sound_enclosed.orderly
  rcases hst.payload_called j with ⟨-, hsame⟩ | ⟨n, hn, hmade⟩ | ⟨n, f, hn, rfl, hmade⟩
  · obtain ⟨facts, hp⟩ := Payload.exists_of_invoker (hsame ▸ hk : (d₅.hierarchy.payload j).kind = _)
    exact absurd rfl (hst.facts_enclosed hp).1
  · have hface := (hcallable j (List.mem_of_getElem? hn)).2
    have hkind : d₆.hierarchy.kind j = d₅.hierarchy.kind j := by
      rw [Hierarchy.kind, Element.kind, ← Hierarchy.payload, hmade.interface, Payload.kind_calledBy]
      rfl
    cases hk.symm.trans (hkind.trans hface)
  · obtain ⟨hlt, hface⟩ := hcallable f (List.mem_of_getElem? hn)
    exact ⟨f, hlt, hface, hmade.invoker⟩

end Stages

end BindingTree

import BindingTree.Proofs.Build.Accepted
import BindingTree.Proofs.Build.Unresolved

/-! What records leave behind. After they are taken in, the namespaces are listed as they were made,
types stand below them or at the top, nothing has a managed name yet, and every element stands for a
record. -/

namespace BindingTree

open Build
open Relation (ReflTransGen)

variable {rs : List Record} {heads : List Record.Head} {d d' : Draft} {h h' : Hierarchy}
  {i : ElementId} {policy : ClashPolicy}

/-- The namespaces at the top are all there are, listed as they were made. -/
def Hierarchy.InOrder (h : Hierarchy) : Prop :=
  h.namespaces = h.ids.filter fun i => h.kind i = .ns

theorem Hierarchy.Fresh.inOrder {o : Owner} {e : Element} (hf : h.Fresh h' o e)
    (hns : h'.namespaces = h.namespaces ++ if e.kind = .ns then [h.size] else [])
    (ho : h.InOrder) : h'.InOrder := by
  have hids := hf.filter_ids fun k => k = .ns
  simp only [decide_eq_true_eq] at hids
  rw [InOrder, hids, hns, ← ho]

theorem inOrder_of_intake (hst : Intake heads d d') (hs : d.Sound) (ho : d.hierarchy.InOrder) :
    d'.hierarchy.InOrder := by
  have hnew := hs.orderly.size_not_mem_namespaces
  cases hst with
  | ns hm hc =>
    exact Hierarchy.Fresh.putNamespace.inOrder (Hierarchy.namespaces_putNamespace hnew) ho
  | enum hm hc hdot =>
    exact Hierarchy.Fresh.putEnum.inOrder
      (Hierarchy.namespaces_putEnum.trans (List.append_nil _).symm) ho
  | below hst =>
    cases hst with
    | @below head p payload hm hp ha hc =>
      have hkind : (elementBelow d.hierarchy p head payload).kind ≠ .ns := by
        intro hk
        have hown := mayOwn_of_accepts ha hc
        rw [show payload.kind = .ns from hk] at hown
        revert hown
        cases d.hierarchy.kind p <;> decide
      refine Hierarchy.Fresh.putBelow.inOrder ?_ ho
      rw [Hierarchy.namespaces_putBelow hnew, if_neg hkind, List.append_nil]
    | @inherit head p name hm hc hn =>
      have hsame : d.hierarchy.SamePlaces _ :=
        .modify (i := p) (Element.kind_withFacts (addBaseName name))
      unfold Hierarchy.InOrder Hierarchy.ids
      rw [hsame.namespaces, hsame.size, hsame.kind]
      exact ho
    | enter hi ht hr => exact ho
    | notice => exact ho

/-- What records leave behind, besides what is listed and entered. -/
structure Gathered (policy : ClashPolicy) (d : Draft) : Prop where
  flat : d.hierarchy.Flat
  noInvoker : NoInvoker d.hierarchy
  whole : d.hierarchy.Whole
  inOrder : d.hierarchy.InOrder
  unnamed : ∀ i, (d.hierarchy.element i).fullManagedName = none
  policy : d.registry.index.policy = policy

theorem gathered_of_intake (hst : Intake heads d d') (hs : d.Sound) (hg : Gathered policy d) :
    Gathered policy d' where
  flat := flat_of_intake hst hs hg.flat
  noInvoker := noInvoker_of_intake hst hg.noInvoker
  whole := whole_of_intake hst hg.whole
  inOrder := inOrder_of_intake hst hs hg.inOrder
  unnamed := by
    refine hst.forall_element (P := fun e => e.fullManagedName = none) (fun _ _ _ _ _ _ => rfl)
      (fun _ _ he => he) (fun f e he => ?_) hg.unnamed
    unfold Element.withFacts
    split <;> exact he
  policy := by
    cases hst with
    | ns hm hc => exact hg.policy
    | enum hm hc hdot => exact hg.policy
    | below hst =>
      cases hst with
      | below hm hp ha hc => exact hg.policy
      | inherit hm hc hn => exact hg.policy
      | enter hi ht hr => exact (Registry.policy_of_insert hr).trans hg.policy
      | notice => exact hg.policy

theorem gathered_of_ingest (hd : ingest rs { registry := .empty policy } = .ok () d) :
    Gathered policy d := by
  have hblank : Gathered policy { registry := .empty policy } := by
    refine ⟨fun c q hc _ => ?_, fun i hk => ?_, fun i hi => ?_, rfl, fun i => ?_, rfl⟩
    · exact absurd hc (by simp [Hierarchy.owner, Hierarchy.node, Node.none])
    · cases hk
    · exact absurd hi (Nat.not_lt_zero i)
    · rfl
  have hsound : ({ registry := .empty policy } : Draft).Sound := ⟨.nil, .empty⟩
  have hsteps : ReflTransGen (Intake (Record.headsOf rs)) { registry := .empty policy } d :=
    ingest_ok (fun _ hx => hx) hd
  exact (hsound.induction Intake.sound gathered_of_intake hsteps hblank).2

/-- Every element that was taken in stands for a record. -/
theorem isBound_of_ingest (hd : ingest rs { registry := .empty policy } = .ok () d)
    (hi : i < d.hierarchy.size) : (d.hierarchy.element i).isBound = true := by
  obtain ⟨fresh, horigins, hstand⟩ := (takenIn_ingest hd).origins
  have hlt : i < d.hierarchy.origins.length := by rwa [Hierarchy.length_origins]
  have hmem : (d.hierarchy.element i).origin ∈ fresh := by
    have hnil : ({ registry := .empty policy } : Draft).hierarchy.origins = [] := rfl
    rw [← Hierarchy.getElem_origins hlt, ← List.nil_append fresh, ← hnil, ← horigins]
    exact List.getElem_mem hlt
  obtain ⟨n, hn, he⟩ := List.getElem_of_mem hmem
  have hstands := hstand.get hn (hstand.length_eq ▸ hn)
  exact (congrArg Origin.isBound he).symm.trans hstands.isBound

theorem nestable_of_ingest (hd : ingest rs { registry := .empty policy } = .ok () d) :
    Nestable d := by
  have ht := taking_of_ingest hd
  have hg := gathered_of_ingest hd
  exact ⟨ht.sound, hg.flat, ht.keyed, hg.noInvoker⟩

end BindingTree

import BindingTree.Proofs.Hierarchy.Ancestry

/-! Well-formed hierarchies: owners and member lists agree, the lists at the top hold what stands
there, and no element stands above itself. Each edit keeps this: taking an element away, moving it
where no cycle arises, growing at the top or below an owner, and changing an element without
changing its kind. -/

namespace BindingTree.Hierarchy

structure WellFormed (h : Hierarchy) : Prop extends h.Grounded where
  mem_members : ∀ {p c : ElementId}, c ∈ h.members p ↔ h.owner c = .element p
  nodup_members : ∀ p : ElementId, (h.members p).Nodup
  mem_namespaces : ∀ {i : ElementId}, i ∈ h.namespaces ↔ h.kind i = .ns ∧ h.owner i = .root
  nodup_namespaces : h.namespaces.Nodup
  of_mem_enums : ∀ {i : ElementId}, i ∈ h.enums → i < h.size ∧ h.kind i = .enum
  nodup_enums : h.enums.Nodup
  /-- What stands at the top is listed there. -/
  listed : ∀ {i : ElementId}, h.owner i = .root → i ∈ h.namespaces ∨ i ∈ h.enums

/-- Two hierarchies with the same elements in the same places, up to what the elements hold. -/
structure SamePlaces (h h' : Hierarchy) : Prop where
  size : h'.size = h.size
  owner : h'.owner = h.owner
  members : h'.members = h.members
  namespaces : h'.namespaces = h.namespaces
  enums : h'.enums = h.enums
  kind : h'.kind = h.kind

variable {h h' : Hierarchy} {i j p c : ElementId} {e : Element}

namespace SamePlaces

theorem refl (h : Hierarchy) : h.SamePlaces h := ⟨rfl, rfl, rfl, rfl, rfl, rfl⟩

theorem trans {h'' : Hierarchy} (h₁ : h.SamePlaces h') (h₂ : h'.SamePlaces h'') :
    h.SamePlaces h'' where
  size := h₂.size.trans h₁.size
  owner := h₂.owner.trans h₁.owner
  members := h₂.members.trans h₁.members
  namespaces := h₂.namespaces.trans h₁.namespaces
  enums := h₂.enums.trans h₁.enums
  kind := h₂.kind.trans h₁.kind

theorem modify {f : Element → Element} (hf : ∀ e, (f e).kind = e.kind) :
    h.SamePlaces (h.modify i f) where
  size := size_modify
  owner := funext fun _ => owner_modify
  members := funext fun _ => members_modify
  namespaces := rfl
  enums := rfl
  kind := funext fun _ => congr_element_modify Element.kind hf

variable (hs : h.SamePlaces h')
include hs

theorem above (ha : h'.Above i j) : h.Above i j := ha.mono fun ho => hs.owner ▸ ho

theorem walk : h'.walk = h.walk := by
  funext i
  unfold Hierarchy.walk
  rw [hs.size]
  induction h.size generalizing i with
  | zero => rfl
  | succ n ih => rw [walkTo, walkTo, hs.members, funext ih]

theorem ancestors : h'.ancestors = h.ancestors := by
  funext i
  unfold Hierarchy.ancestors
  rw [hs.size]
  induction h.size generalizing i with
  | zero => rfl
  | succ n ih => simp only [ownersUpTo, hs.owner, ih]

theorem wellFormed (hw : h.WellFormed) : h'.WellFormed where
  owner_lt ho := by
    rw [hs.size]
    exact hw.owner_lt (hs.owner ▸ ho)
  acyclic i ha := hw.acyclic i (hs.above ha)
  mem_members := by
    rw [hs.members, hs.owner]
    exact hw.mem_members
  nodup_members := by
    rw [hs.members]
    exact hw.nodup_members
  mem_namespaces := by
    rw [hs.namespaces, hs.kind, hs.owner]
    exact hw.mem_namespaces
  nodup_namespaces := hs.namespaces ▸ hw.nodup_namespaces
  of_mem_enums := by
    rw [hs.enums, hs.size, hs.kind]
    exact hw.of_mem_enums
  nodup_enums := hs.enums ▸ hw.nodup_enums
  listed := by
    rw [hs.owner, hs.namespaces, hs.enums]
    exact hw.listed

end SamePlaces

theorem kind_detach : (h.detach i).kind j = h.kind j := by simp [kind]

theorem kind_move : (h.move p c).kind j = h.kind j := by simp [kind]

theorem nodup_append_ite {l : List ElementId} {P : Prop} [Decidable P] (hl : l.Nodup)
    (hc : c ∉ l) : (l ++ if P then [c] else []).Nodup := by
  split
  · exact hl.append (List.nodup_singleton c) (List.disjoint_singleton.2 hc)
  · simpa using hl

namespace WellFormed

theorem nil : (({} : Hierarchy)).WellFormed where
  owner_lt ho := by simp [owner, node, Node.none] at ho
  acyclic i ha := by
    obtain ⟨p, ho⟩ := ha.exists_owner
    simp [owner, node, Node.none] at ho
  mem_members := by simp [members, owner, node, Node.none]
  nodup_members := by simp [members, node, Node.none]
  mem_namespaces := by simp [owner, node, Node.none]
  nodup_namespaces := List.nodup_nil
  of_mem_enums hi := by simp at hi
  nodup_enums := List.nodup_nil
  listed ho := by simp [owner, node, Node.none] at ho

variable (hw : h.WellFormed)
include hw

theorem lt_size_of_mem_namespaces (hi : i ∈ h.namespaces) : i < h.size :=
  lt_size_of_owner_ne (by rw [(hw.mem_namespaces.1 hi).2]; simp)

theorem lt_size_of_mem_members (hc : c ∈ h.members p) : c < h.size :=
  lt_size_of_owner_ne (by rw [hw.mem_members.1 hc]; simp)

theorem size_not_mem_namespaces : h.size ∉ h.namespaces :=
  fun hi => Nat.lt_irrefl _ (hw.lt_size_of_mem_namespaces hi)

theorem size_not_mem_enums : h.size ∉ h.enums :=
  fun hi => Nat.lt_irrefl _ (hw.of_mem_enums hi).1

theorem size_not_mem_members : h.size ∉ h.members p :=
  fun hi => Nat.lt_irrefl _ (hw.lt_size_of_mem_members hi)

theorem mem_rootEnums : i ∈ h.rootEnums ↔ h.kind i = .enum ∧ h.owner i = .root := by
  rw [rootEnums, List.mem_filter, decide_eq_true_eq]
  constructor
  · exact fun hi => ⟨(hw.of_mem_enums hi.1).2, hi.2⟩
  · rintro ⟨hk, ho⟩
    refine ⟨(hw.listed ho).resolve_left fun hn => ?_, ho⟩
    rw [(hw.mem_namespaces.1 hn).1] at hk
    cases hk

theorem detach : (h.detach i).WellFormed where
  owner_lt {j q} ho := by
    rw [owner_detach] at ho
    rw [size_detach]
    split at ho
    · cases ho
    · exact hw.owner_lt ho
  acyclic j ha := hw.acyclic j <| ha.mono fun {k q} ho => by
    rw [owner_detach] at ho
    split at ho
    · cases ho
    · exact ho
  mem_members {q k} := by
    rw [members_detach, owner_detach]
    by_cases hk : k = i
    · subst hk
      split
      · simp
      next ho => simpa [hw.mem_members] using ho
    · split <;> simp [hk, hw.mem_members]
  nodup_members q := by
    rw [members_detach]
    split
    · exact (hw.nodup_members q).filter _
    · exact hw.nodup_members q
  mem_namespaces {k} := by
    rw [namespaces_detach, kind_detach, owner_detach]
    by_cases hk : k = i
    · subst hk
      split
      · simp
      next ho => simp [hw.mem_namespaces, ho]
    · split <;> simp [hk, hw.mem_namespaces]
  nodup_namespaces := by
    rw [namespaces_detach]
    split
    · exact hw.nodup_namespaces.filter _
    · exact hw.nodup_namespaces
  of_mem_enums {k} hk := by
    rw [enums_detach] at hk
    rw [size_detach, kind_detach]
    exact hw.of_mem_enums hk
  nodup_enums := by
    rw [enums_detach]
    exact hw.nodup_enums
  listed {k} ho := by
    rw [owner_detach] at ho
    split at ho
    · cases ho
    next hk =>
      rw [namespaces_detach, enums_detach]
      refine (hw.listed ho).imp_left fun hn => ?_
      split <;> simp [hk, hn]

/-- An element that has been taken out goes under one that it does not stand above. -/
theorem attach (hp : p < h.size) (hc : c < h.size) (hd : h.owner c = .detached) (hpc : p ≠ c)
    (hcp : ¬ h.Above c p) : (h.attach p c).WellFormed where
  owner_lt {j q} ho := by
    rw [owner_attach hc] at ho
    rw [size_attach]
    split at ho
    · cases ho
      exact hp
    · exact hw.owner_lt ho
  acyclic := acyclic_of_owner_update hw.acyclic
    (fun j hj => by rw [owner_attach hc, if_neg hj]) (by rw [owner_attach hc, if_pos rfl]) hpc hcp
  mem_members {q k} := by
    rw [members_attach hp, owner_attach hc, List.mem_append]
    by_cases hk : k = c
    · subst hk
      simp [hw.mem_members, hd, eq_comm]
    · by_cases hq : q = p <;> simp [hk, hq, hw.mem_members]
  nodup_members q := by
    rw [members_attach hp]
    exact nodup_append_ite (hw.nodup_members q) (by simp [hw.mem_members, hd])
  mem_namespaces {k} := by
    rw [namespaces_attach, kind, element_attach, owner_attach hc]
    by_cases hk : k = c
    · simp [hk, hw.mem_namespaces, hd]
    · rw [if_neg hk]
      exact hw.mem_namespaces
  nodup_namespaces := by
    rw [namespaces_attach]
    exact hw.nodup_namespaces
  of_mem_enums {k} hk := by
    rw [enums_attach] at hk
    rw [size_attach, kind, element_attach]
    exact hw.of_mem_enums hk
  nodup_enums := by
    rw [enums_attach]
    exact hw.nodup_enums
  listed {k} ho := by
    rw [owner_attach hc] at ho
    rw [namespaces_attach, enums_attach]
    split at ho
    · cases ho
    · exact hw.listed ho

theorem move (hp : p < h.size) (hc : c < h.size) (hpc : p ≠ c) (hcp : ¬ h.Above c p) :
    (h.move p c).WellFormed := by
  refine hw.detach.attach (by rwa [size_detach]) (by rwa [size_detach]) ?_ hpc ?_
  · rw [owner_detach, if_pos rfl]
  · refine fun ha => hcp (ha.mono fun {j q} ho => ?_)
    rw [owner_detach] at ho
    split at ho
    · cases ho
    · exact ho

/-- A fresh element makes no cycle: nothing stands below it. -/
theorem acyclic_of_fresh {o : Owner} (hf : Fresh h h' o e)
    (ho : ∀ p, o = .element p → p < h.size) (i : ElementId) : ¬ h'.Above i i := by
  have hold : ∀ j, j ≠ h.size → h'.owner j = h.owner j := fun j hj => by rw [hf.owner, if_neg hj]
  by_cases howned : ∃ p, o = .element p
  · obtain ⟨p, rfl⟩ := howned
    refine acyclic_of_owner_update hw.acyclic hold hf.owner_new (Nat.ne_of_lt (ho p rfl)) ?_ i
    exact fun ha => Nat.lt_irrefl _ (hw.lt_size_of_above ha)
  · refine fun ha => hw.acyclic i (ha.mono fun {j q} hj => ?_)
    by_cases hjs : j = h.size
    · subst hjs
      exact absurd ⟨q, hf.owner_new.symm.trans hj⟩ howned
    · rw [← hold j hjs, hj]

/-- Growth that lists the fresh element among its owner's members, or at the top. -/
theorem of_fresh {o : Owner} (hf : Fresh h h' o e)
    (ho : o = .root ∧ (e.kind = .ns ∨ e.kind = .enum) ∨ ∃ p < h.size, o = .element p)
    (hm : ∀ q, h'.members q = h.members q ++ if o = .element q then [h.size] else [])
    (hn : h'.namespaces = h.namespaces ++ if o = .root ∧ e.kind = .ns then [h.size] else [])
    (he : h'.enums = h.enums ++ if o = .root ∧ e.kind = .enum then [h.size] else []) :
    h'.WellFormed where
  owner_lt {j q} hj := by
    rw [hf.owner] at hj
    refine Nat.lt_trans ?_ hf.size_lt
    split at hj
    · rcases ho with ⟨hroot, -⟩ | ⟨p, hp, helement⟩
      · rw [hroot] at hj
        cases hj
      · rw [helement] at hj
        cases hj
        exact hp
    · exact hw.owner_lt hj
  acyclic := by
    refine hw.acyclic_of_fresh hf fun p hp => ?_
    rcases ho with ⟨hroot, -⟩ | ⟨q, hq, helement⟩
    · rw [hroot] at hp
      cases hp
    · rw [helement] at hp
      cases hp
      exact hq
  mem_members {q k} := by
    rw [hm, hf.owner, List.mem_append]
    by_cases hk : k = h.size
    · subst hk
      simp [hw.size_not_mem_members]
    · simp [hk, hw.mem_members]
  nodup_members q := by
    rw [hm]
    exact nodup_append_ite (hw.nodup_members q) hw.size_not_mem_members
  mem_namespaces {k} := by
    rw [hn, hf.kind, hf.owner, List.mem_append]
    by_cases hk : k = h.size
    · subst hk
      simp [hw.size_not_mem_namespaces, and_comm]
    · simp [hk, hw.mem_namespaces]
  nodup_namespaces := by
    rw [hn]
    exact nodup_append_ite hw.nodup_namespaces hw.size_not_mem_namespaces
  of_mem_enums {k} hk := by
    rw [he, List.mem_append] at hk
    rcases hk with hk | hk
    · have hlt := (hw.of_mem_enums hk).1
      exact ⟨Nat.lt_trans hlt hf.size_lt, (hf.kind_of_lt hlt).trans (hw.of_mem_enums hk).2⟩
    · split at hk
      next henum =>
        rw [List.mem_singleton.1 hk, hf.kind_new]
        exact ⟨hf.size_lt, henum.2⟩
      next => cases hk
  nodup_enums := by
    rw [he]
    exact nodup_append_ite hw.nodup_enums hw.size_not_mem_enums
  listed {k} hk := by
    rw [hf.owner] at hk
    rw [hn, he, List.mem_append, List.mem_append]
    split at hk
    next hks =>
      rcases ho with ⟨hroot, hkind⟩ | ⟨p, -, helement⟩
      · rcases hkind with hkind | hkind
        · exact .inl (.inr (by simp [hroot, hkind, hks]))
        · exact .inr (.inr (by simp [hroot, hkind, hks]))
      · rw [helement] at hk
        cases hk
    next => exact (hw.listed hk).imp .inl .inl

theorem putBelow (hp : p < h.size) : (h.putBelow p e).WellFormed := by
  refine hw.of_fresh .putBelow (.inr ⟨p, hp, rfl⟩) (fun q => ?_) ?_ (by simp)
  · rw [members_putBelow hp]
    simp [eq_comm]
  · rw [namespaces_putBelow hw.size_not_mem_namespaces]
    simp

theorem putNamespace (hk : e.kind = .ns) : (h.putNamespace e).WellFormed := by
  refine hw.of_fresh .putNamespace (.inl ⟨rfl, .inl hk⟩) (by simp) ?_ (by simp [hk])
  rw [namespaces_putNamespace hw.size_not_mem_namespaces]
  simp [hk]

theorem putEnum (hk : e.kind = .enum) : (h.putEnum e).WellFormed := by
  refine hw.of_fresh .putEnum (.inl ⟨rfl, .inr hk⟩) (by simp) (by simp [hk]) ?_
  rw [enums_putEnum hw.size_not_mem_enums]
  simp [hk]

end WellFormed

end BindingTree.Hierarchy

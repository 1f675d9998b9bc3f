import BindingTree.Build.BaseTypes
import BindingTree.Build.Markers
import BindingTree.Proofs.Build.Run
import BindingTree.Proofs.Build.Sound
import BindingTree.Proofs.Hierarchy.Moves
import BindingTree.Proofs.Hierarchy.Names

/-! The last two passes. Finding base types and marking elements change neither places nor names,
and the only elements taken out are records of implemented interfaces; so whatever stays in the
hierarchy keeps its place and all its names. -/

namespace BindingTree.Build

/-- What the last passes do to a hierarchy. -/
structure Finished (h h' : Hierarchy) : Prop where
  size : h'.size = h.size
  enums : h'.enums = h.enums
  native : ∀ i, (h'.element i).native = (h.element i).native
  managed : ∀ i, (h'.element i).managed = (h.element i).managed
  owner : ∀ {i : ElementId}, h'.owner i ≠ .detached → h'.owner i = h.owner i

variable {s : Settings} {d d' : Draft} {h h' h'' : Hierarchy} {i j : ElementId} {e : Element}
  {l found bases : List ElementId} {names : List String}

namespace Finished

theorem of_same (hn : h.SameNative h') (hm : h.SameManaged h') : Finished h h' where
  size := hn.size
  enums := hn.enums
  native := hn.native
  managed := hm.managed
  owner _ := by rw [hn.owner]

theorem refl (h : Hierarchy) : Finished h h := of_same (.refl h) (.refl h)

theorem trans (h₁ : Finished h h') (h₂ : Finished h' h'') : Finished h h'' where
  size := h₂.size.trans h₁.size
  enums := h₂.enums.trans h₁.enums
  native i := (h₂.native i).trans (h₁.native i)
  managed i := (h₂.managed i).trans (h₁.managed i)
  owner {i} hi := by
    have hi' := h₂.owner hi
    exact hi'.trans (h₁.owner (hi' ▸ hi))

variable (hf : Finished h h')
include hf

theorem composed (hi : h'.owner i ≠ .detached) (hc : h.Composed i) : h'.Composed i :=
  hc.of_native (hf.owner hi) (hf.native i) fun p _ => hf.native p

theorem kept_managed (hi : h'.owner i ≠ .detached) (hm : h.Managed i) : h'.Managed i :=
  hm.congr (hf.owner hi) (hf.managed i) fun p _ => hf.managed p

end Finished

/-! ### Base types -/

theorem findBases_ok (hd : findBases i e found names d = .ok bases d') : d' = d := by
  induction names generalizing found with
  | nil =>
    obtain ⟨-, rfl⟩ := pure_ok.1 hd
    rfl
  | cons name names ih =>
    obtain ⟨base, _, hlookup, hrest⟩ := bind_ok.1 hd
    obtain ⟨-, rfl⟩ := lookup_ok.1 hlookup
    exact ih hrest

/-- The default base is the base of interfaces or the root type. -/
theorem defaultBase_cases (s : Settings) (i : ElementId) (e : Element) :
    ∃ name hint, (name = s.baseInterface ∧ hint = Kind.iface ∨ name = s.rootType ∧ hint = Kind.cls) ∧
      defaultBase s i e = do
        let base ← lookup name (some hint) e
        return if base = i then [] else [base] := by
  unfold defaultBase
  split
  · exact ⟨_, _, .inl ⟨rfl, rfl⟩, rfl⟩
  · exact ⟨_, _, .inr ⟨rfl, rfl⟩, rfl⟩

theorem defaultBase_ok (hd : defaultBase s i e d = .ok bases d') : d' = d := by
  obtain ⟨name, hint, -, heq⟩ := defaultBase_cases s i e
  rw [heq] at hd
  obtain ⟨base, _, hlookup, hrest⟩ := bind_ok.1 hd
  obtain ⟨-, rfl⟩ := lookup_ok.1 hlookup
  exact (pure_ok.1 hrest).2.symm

/-- An element with base types. -/
def basedOn (bases : List ElementId) : Element → Element :=
  Element.withFacts fun f => { f with bases := some bases }

/-- Finding the base types of an element changes nothing else. -/
theorem resolveBases_ok (hd : resolveBases s i d = .ok () d') :
    d' = d ∨ ∃ bases, d' = { d with hierarchy := d.hierarchy.modify i (basedOn bases) } := by
  obtain ⟨_, _, helement, hbases⟩ := bind_ok.1 hd
  obtain ⟨rfl, rfl⟩ := element_ok.1 helement
  cases hfacts : (d.hierarchy.element i).facts? with
  | none =>
    simp only [hfacts] at hbases
    exact .inl (pure_ok.1 hbases).2.symm
  | some facts =>
    simp only [hfacts] at hbases
    split at hbases
    · exact .inl (pure_ok.1 hbases).2.symm
    · obtain ⟨found, _, hfound, hrest⟩ := bind_ok.1 hbases
      obtain rfl := findBases_ok hfound
      split at hrest
      · obtain ⟨bases, _, hdefault, hedit⟩ := bind_ok.1 hrest
        obtain rfl := defaultBase_ok hdefault
        exact .inr ⟨_, (editElement_ok.1 hedit).symm⟩
      · obtain ⟨bases, _, hpure, hedit⟩ := bind_ok.1 hrest
        obtain ⟨-, rfl⟩ := pure_ok.1 hpure
        exact .inr ⟨_, (editElement_ok.1 hedit).symm⟩

theorem finished_of_forM (hs : d.Sound) (hd : l.forM (resolveBases s) d = .ok () d') :
    d'.Sound ∧ Finished d.hierarchy d'.hierarchy := by
  refine forM_ok (I := fun _ d₁ => d₁.Sound ∧ Finished d.hierarchy d₁.hierarchy) ?_
    ⟨hs, .refl _⟩ hd
  rintro i _ d₁ d₂ ⟨hs₁, hf⟩ hi
  rcases resolveBases_ok hi with rfl | ⟨bases, rfl⟩
  · exact ⟨hs₁, hf⟩
  · exact ⟨hs₁.same (.modify (Element.kind_withFacts _)),
      hf.trans (.of_same (.modify (Element.native_withFacts _))
        (.modify (Element.kind_withFacts _) (Element.managed_withFacts _)))⟩

theorem finished_detach : Finished h (h.detach i) where
  size := Hierarchy.size_detach
  enums := Hierarchy.enums_detach
  native _ := by rw [Hierarchy.element_detach]
  managed _ := by rw [Hierarchy.element_detach]
  owner {j} hj := by
    rw [Hierarchy.owner_detach] at hj ⊢
    split at hj
    next => exact absurd rfl hj
    next hne => rw [if_neg hne]

theorem finished_removeFromOwner (ho : h.Orderly) (hk : h.kind i = .implements) :
    (removeFromOwner h i).Orderly ∧ Finished h (removeFromOwner h i) := by
  unfold removeFromOwner
  split
  · exact ⟨ho.detach hk, finished_detach⟩
  · exact ⟨ho, .refl h⟩

theorem Finished.kind (hf : Finished h h') : h'.kind = h.kind :=
  funext fun i => congrArg Prod.fst (hf.native i)

theorem finished_of_foldl_remove (ho : h.Orderly) (his : ∀ i ∈ l, h.kind i = .implements) :
    (l.foldl removeFromOwner h).Orderly ∧ Finished h (l.foldl removeFromOwner h) := by
  induction l generalizing h with
  | nil => exact ⟨ho, .refl h⟩
  | cons i l ih =>
    obtain ⟨ho₁, hf⟩ := finished_removeFromOwner ho (his i List.mem_cons_self)
    obtain ⟨ho₂, hf₂⟩ := ih ho₁ fun j hj => by
      rw [hf.kind]
      exact his j (List.mem_cons_of_mem _ hj)
    exact ⟨ho₂, hf.trans hf₂⟩

theorem resolveBaseTypes_ok (hs : d.Sound) (hd : resolveBaseTypes s d = .ok () d') :
    d'.Sound ∧ Finished d.hierarchy d'.hierarchy := by
  obtain ⟨_, _, hh, hrest⟩ := bind_ok.1 hd
  obtain ⟨rfl, rfl⟩ := hierarchy_ok.1 hh
  obtain ⟨_, d₁, hbases, hremove⟩ := bind_ok.1 hrest
  obtain ⟨hs₁, hf₁⟩ := finished_of_forM hs hbases
  obtain ⟨_, _, hh₁, hedit⟩ := bind_ok.1 hremove
  obtain ⟨rfl, rfl⟩ := hierarchy_ok.1 hh₁
  obtain rfl := edit_ok.1 hedit
  have hremoved := finished_of_foldl_remove hs₁.orderly
    (l := d₁.hierarchy.walkAll.filter fun i => d₁.hierarchy.kind i = .implements)
    fun i hi => by simpa using (List.mem_filter.1 hi).2
  refine ⟨hs₁.extend hremoved.1 (Nat.le_of_eq hremoved.2.size.symm) fun _ _ => by
    rw [hremoved.2.kind], hf₁.trans hremoved.2⟩

/-! ### Markers -/

theorem finished_markElement : h.SamePlaces (markElement h i) ∧ Finished h (markElement h i) := by
  have hmark : ∀ (a : Marker) (e : Element), (Element.mark a e).native = e.native ∧
      (Element.mark a e).managed = e.managed := by
    intro a e
    unfold Element.mark
    split <;> exact ⟨rfl, rfl⟩
  unfold markElement
  split
  · split
    next a _ =>
      have hn : h.SameNative (h.modify i (Element.mark a)) := .modify fun e => (hmark a e).1
      exact ⟨hn.toSamePlaces, .of_same hn
        (.modify (fun e => congrArg Prod.fst (hmark a e).1) fun e => (hmark a e).2)⟩
    next => exact ⟨.refl h, .refl h⟩
  · exact ⟨.refl h, .refl h⟩

theorem finished_of_foldl_mark :
    h.SamePlaces (l.foldl markElement h) ∧ Finished h (l.foldl markElement h) := by
  induction l generalizing h with
  | nil => exact ⟨.refl h, .refl h⟩
  | cons i l ih =>
    have h₁ := finished_markElement (h := h) (i := i)
    have h₂ := ih (h := markElement h i)
    exact ⟨h₁.1.trans h₂.1, h₁.2.trans h₂.2⟩

theorem mark_ok (hs : d.Sound) (hd : mark d = .ok () d') :
    d'.Sound ∧ Finished d.hierarchy d'.hierarchy := by
  obtain rfl := edit_ok.1 hd
  have hmarked := finished_of_foldl_mark (h := d.hierarchy) (l := d.hierarchy.walkAll)
  exact ⟨hs.same hmarked.1, hmarked.2⟩

end BindingTree.Build

import BindingTree.Proofs.Build.Run
import BindingTree.Proofs.Build.Sound
import BindingTree.Proofs.Hierarchy.Names
import BindingTree.Proofs.Naming.Translation

/-! Giving managed names over a list of elements in which owners come before what they own. Each
element is named from its owner as the owner is at that moment, and no owner is named again later,
so in the end all of them go on from their owners. -/

namespace BindingTree.Build

open Naming

/-- An element under its managed names. -/
def managedAs (managed full : String) (e : Element) : Element :=
  { e with managedName := some managed, fullManagedName := some full }

variable {t : Translator} {d d' : Draft} {h h' : Hierarchy} {i j p : ElementId}
  {is : List ElementId}

/-! ### One element -/

theorem assignManagedName_ok (hd : assignManagedName t i d = .ok () d') :
    ∃ managed r, managedNameOf t (d.hierarchy.element i) = .ok managed ∧
      d' = ⟨d.hierarchy.modify i (managedAs managed (fullManagedNameOf d.hierarchy i managed)), r⟩ ∧
      (((d.hierarchy.element i).isType = true ∨ d.hierarchy.kind i = .ns) ∧
          Registry.addManaged i (d'.hierarchy.element i) d.registry = .ok () r ∨
        ¬ ((d.hierarchy.element i).isType = true ∨ d.hierarchy.kind i = .ns) ∧ r = d.registry) := by
  obtain ⟨_, _, hh, hnames⟩ := bind_ok.1 hd
  obtain ⟨rfl, rfl⟩ := hierarchy_ok.1 hh
  obtain ⟨managed, _, hof, hedits⟩ := bind_ok.1 hnames
  obtain ⟨hname, rfl⟩ := ofExcept_ok.1 hof
  obtain ⟨_, d₂, hedit, henter⟩ := bind_ok.1 hedits
  obtain rfl := editElement_ok.1 hedit
  split at henter
  next ht =>
    obtain ⟨r, hr, rfl⟩ := addManaged_ok.1 henter
    exact ⟨managed, r, hname, rfl, .inl ⟨by simpa using ht, hr⟩⟩
  next ht =>
    obtain ⟨-, rfl⟩ := pure_ok.1 henter
    exact ⟨managed, _, hname, rfl, .inr ⟨by simpa using ht, rfl⟩⟩

theorem sound_of_assign (hs : d.Sound) (hi : i < d.hierarchy.size)
    (hd : assignManagedName t i d = .ok () d') : d'.Sound := by
  obtain ⟨managed, r, -, rfl, hr⟩ := assignManagedName_ok hd
  have hsame : d.hierarchy.SamePlaces
      (d.hierarchy.modify i (managedAs managed (fullManagedNameOf d.hierarchy i managed))) :=
    .modify fun _ => rfl
  have hpoints := (hs.same hsame).points
  refine ⟨hsame.orderly hs.orderly, ?_⟩
  rcases hr with ⟨ht, hr⟩ | ⟨-, rfl⟩
  · refine Index.PointsInto.addManaged hpoints (hsame.size ▸ hi) rfl ?_ hr
    rw [Element.isType, ← Hierarchy.kind, hsame.kind]
    exact ht
  · exact hpoints

/-- An element is named after its owner. -/
theorem managed_of_assign (ho : d.hierarchy.Orderly) (hi : i < d.hierarchy.size)
    (hd : assignManagedName t i d = .ok () d') : d'.hierarchy.Managed i := by
  obtain ⟨managed, r, -, rfl, -⟩ := assignManagedName_ok hd
  refine ⟨managed, ?_, ?_⟩
  · rw [Hierarchy.element_modify_self hi]
    rfl
  rw [Hierarchy.element_modify_self hi, Hierarchy.owner_modify]
  change some (fullManagedNameOf d.hierarchy i managed) = _
  rw [fullManagedNameOf]
  cases hio : d.hierarchy.owner i with
  | element p =>
    have hpi : p ≠ i := fun h => ho.acyclic i (.of_owner (h ▸ hio))
    have hkind : d.hierarchy.kind i ≠ .ns := by
      intro hns
      have hfits := ho.fits hio
      rw [hns] at hfits
      cases hk : d.hierarchy.kind p <;> simp [hk, Kind.mayOwn] at hfits
    simp only [if_neg hkind, Hierarchy.composeFullManagedName, Hierarchy.element_modify_of_ne hpi]
  | root => simp [Hierarchy.composeFullManagedName]
  | detached => simp [Hierarchy.composeFullManagedName]

/-! ### A list of elements -/

/-- What giving managed names to the elements of a list does to the hierarchy. -/
structure NamedOver (is : List ElementId) (h h' : Hierarchy) : Prop extends h.SameNative h' where
  others : ∀ {j : ElementId}, j ∉ is → h'.element j = h.element j
  given : ∀ j, (h'.element j).givenName = (h.element j).givenName

theorem namedOver_of_assign (hd : assignManagedName t i d = .ok () d') :
    NamedOver [i] d.hierarchy d'.hierarchy := by
  obtain ⟨managed, r, -, rfl, -⟩ := assignManagedName_ok hd
  refine ⟨.modify fun _ => rfl, ?_, fun _ => Hierarchy.congr_element_modify _ fun _ => rfl⟩
  intro j hj
  exact Hierarchy.element_modify_of_ne (by simpa using hj)

theorem NamedOver.cons (h₁ : NamedOver [i] h h') {h'' : Hierarchy} (h₂ : NamedOver is h' h'') :
    NamedOver (i :: is) h h'' := by
  refine ⟨h₁.toSameNative.trans h₂.toSameNative, ?_, fun j => (h₂.given j).trans (h₁.given j)⟩
  intro j hj
  rw [List.mem_cons, not_or] at hj
  rw [h₂.others hj.2, h₁.others (by simpa using hj.1)]

theorem namedOver_of_forM (hd : is.forM (assignManagedName t) d = .ok () d') :
    NamedOver is d.hierarchy d'.hierarchy := by
  induction is generalizing d with
  | nil =>
    obtain ⟨-, rfl⟩ := pure_ok.1 hd
    exact ⟨.refl _, fun _ => rfl, fun _ => rfl⟩
  | cons i is ih =>
    obtain ⟨_, d₁, hi, his⟩ := bind_ok.1 hd
    exact (namedOver_of_assign hi).cons (ih his)

theorem sound_of_forM_assign (hs : d.Sound) (hlt : ∀ i ∈ is, i < d.hierarchy.size)
    (hd : is.forM (assignManagedName t) d = .ok () d') : d'.Sound := by
  induction is generalizing d with
  | nil =>
    obtain ⟨-, rfl⟩ := pure_ok.1 hd
    exact hs
  | cons i is ih =>
    obtain ⟨_, d₁, hi, his⟩ := bind_ok.1 hd
    refine ih (sound_of_assign hs (hlt i List.mem_cons_self) hi) ?_ his
    intro j hj
    rw [(namedOver_of_assign hi).size]
    exact hlt j (List.mem_cons_of_mem _ hj)

/-- With owners before what they own, every element of the list goes on from its owner in the
end. -/
theorem managed_of_forM (ho : d.hierarchy.Orderly) (hlt : ∀ i ∈ is, i < d.hierarchy.size)
    (horder : is.Pairwise fun a b => ¬ d.hierarchy.Covers b a)
    (hd : is.forM (assignManagedName t) d = .ok () d') : ∀ i ∈ is, d'.hierarchy.Managed i := by
  induction is generalizing d with
  | nil => simp
  | cons i is ih =>
    rw [List.pairwise_cons] at horder
    obtain ⟨_, d₁, hassign, hrest⟩ := bind_ok.1 hd
    have hnamed := namedOver_of_assign hassign
    have hafter := namedOver_of_forM hrest
    have hnot : i ∉ is := fun h => horder.1 i h (.refl _ i)
    have hmanaged : d₁.hierarchy.Managed i := managed_of_assign ho (hlt i List.mem_cons_self) hassign
    have hcovers : ∀ {a b : ElementId}, d₁.hierarchy.Covers a b → d.hierarchy.Covers a b :=
      fun hc => hc.imp_right hnamed.above
    intro j hj
    rcases List.mem_cons.1 hj with rfl | hj
    · refine hmanaged.congr (by rw [hafter.owner]) (by rw [hafter.others hnot]) fun p hp => ?_
      -- The owner is not in the rest of the list, so its names are final.
      rw [hnamed.owner] at hp
      rw [hafter.others fun h => horder.1 p h (.of_owner hp)]
    · refine ih (hnamed.orderly ho) ?_ (horder.2.imp fun hab hc => hab (hcovers hc)) hrest j hj
      intro k hk
      rw [hnamed.size]
      exact hlt k (List.mem_cons_of_mem _ hk)

end BindingTree.Build

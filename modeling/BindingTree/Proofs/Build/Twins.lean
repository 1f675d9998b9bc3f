import BindingTree.Proofs.Build.Alike
import BindingTree.Proofs.Build.Gathered

/-! Forests that differ in the order in which namespaces list their types. They list the same types
and namespaces, so if no two of these have the same full name, both are taken in or neither is, and
the drafts that they lead to are alike. -/

namespace BindingTree

open Build

variable {rs rs' : List Record} {d d' : Draft} {i j q : ElementId} {policy : ClashPolicy}

/-! ### Forests that differ in the order of siblings -/

/-- The second forest is the first with the children of namespace records in another order, at any
number of places and depths. -/
inductive Record.Shuffled : List Record → List Record → Prop where
  | nil : Shuffled [] []
  | cons {head : Record.Head} {children children' rs rs' : List Record}
      (hc : Shuffled children children') (hr : Shuffled rs rs') :
      Shuffled (⟨head, children⟩ :: rs) (⟨head, children'⟩ :: rs')
  | ns {head : Record.Head} {children children' children'' rs rs' : List Record}
      (ht : head.content.tag = .ns) (hc : Shuffled children children')
      (hp : children'.Perm children'') (hr : Shuffled rs rs') :
      Shuffled (⟨head, children⟩ :: rs) (⟨head, children''⟩ :: rs')

namespace Record.Shuffled

theorem refl : ∀ rs : List Record, Shuffled rs rs
  | [] => .nil
  | ⟨_, children⟩ :: rs => .cons (refl children) (refl rs)

theorem map_head (hs : Shuffled rs rs') : rs.map Record.head = rs'.map Record.head := by
  induction hs with
  | nil => rfl
  | cons _ _ _ ih => rw [List.map_cons, List.map_cons, ih]
  | ns _ _ _ _ _ ih => rw [List.map_cons, List.map_cons, ih]

theorem filterMap_listingBelow? (hs : Shuffled rs rs') (ns : String) :
    rs.filterMap (·.head.listingBelow? ns) = rs'.filterMap (·.head.listingBelow? ns) := by
  have hmap : ∀ rs : List Record, rs.filterMap (·.head.listingBelow? ns) =
      (rs.map Record.head).filterMap (·.listingBelow? ns) := fun rs => by
    rw [List.filterMap_map]
    rfl
  rw [hmap, hmap, hs.map_head]

/-- The same types and namespaces are listed. -/
theorem perm_listings (hs : Shuffled rs rs') :
    (rs.flatMap Record.listings).Perm (rs'.flatMap Record.listings) := by
  induction hs with
  | nil => exact .nil
  | @cons head children children' rs rs' hc _ _ ih =>
    rw [List.flatMap_cons, List.flatMap_cons]
    refine List.Perm.append ?_ ih
    unfold Record.listings
    rw [hc.filterMap_listingBelow?]
    exact .refl _
  | @ns head children children' children'' rs rs' ht hc hp _ _ ih =>
    rw [List.flatMap_cons, List.flatMap_cons]
    refine List.Perm.append ?_ ih
    have htag : ∀ cs, (⟨head, cs⟩ : Record).listings = ⟨.ns, head.name, head.name, none⟩ ::
        cs.filterMap (·.head.listingBelow? head.name) := by
      intro cs
      rw [Record.listings, show (⟨head, cs⟩ : Record).tag = .ns from ht]
      rfl
    rw [htag, htag, hc.filterMap_listingBelow?]
    exact (hp.filterMap _).cons _

/-- The namespaces are listed in one order. -/
theorem filter_ns_listings (hs : Shuffled rs rs') :
    (rs.flatMap Record.listings).filter (·.kind = .ns) =
      (rs'.flatMap Record.listings).filter (·.kind = .ns) := by
  have hbelow : ∀ (ns : String) (cs : List Record),
      (cs.filterMap (·.head.listingBelow? ns)).filter (·.kind = .ns) = [] := by
    intro ns cs
    rw [List.filter_eq_nil_iff]
    intro l hl
    obtain ⟨r, -, hr⟩ := List.mem_filterMap.1 hl
    unfold Record.Head.listingBelow? at hr
    dsimp only at hr
    split at hr <;> cases hr <;> simp
  have hfirst : ∀ (head : Record.Head) (cs cs' : List Record),
      (⟨head, cs⟩ : Record).listings.filter (·.kind = .ns) =
        (⟨head, cs'⟩ : Record).listings.filter (·.kind = .ns) := by
    intro head cs cs'
    have htag : ∀ cs, (⟨head, cs⟩ : Record).tag = head.content.tag := fun _ => rfl
    unfold Record.listings
    rw [htag, htag]
    cases head.content.tag with
    | ns =>
      dsimp only
      rw [List.filter_cons, List.filter_cons, hbelow, hbelow]
      rfl
    | _ => rfl
  induction hs with
  | nil => rfl
  | @cons head children children' rs rs' _ _ _ ih =>
    rw [List.flatMap_cons, List.flatMap_cons, List.filter_append, List.filter_append, ih,
      hfirst head children children']
  | @ns head children children' children'' rs rs' _ _ _ _ _ ih =>
    rw [List.flatMap_cons, List.flatMap_cons, List.filter_append, List.filter_append, ih,
      hfirst head children children'']

end Record.Shuffled

/-! ### Alike after records are taken in -/

/-- Types and namespaces of two drafts that are listed as the same. -/
def sameListing (h h' : Hierarchy) : Pairing := fun i j =>
  i ∈ h.indexed ∧ j ∈ h'.indexed ∧ h.listing i = h'.listing j

theorem flip_sameListing (h h' : Hierarchy) : flip (sameListing h h') = sameListing h' h := by
  funext j i
  exact propext ⟨fun ⟨hi, hj, he⟩ => ⟨hj, hi, he.symm⟩, fun ⟨hj, hi, he⟩ => ⟨hi, hj, he.symm⟩⟩

/-- Two drafts after forests were taken in that list the same, each name once. -/
structure Twins (d d' : Draft) : Prop where
  taking : Taking d.hierarchy.listings [] [] d
  gathered : Gathered d.registry.index.policy d
  bound : ∀ i < d.hierarchy.size, (d.hierarchy.element i).isBound = true
  taking' : Taking d'.hierarchy.listings [] [] d'
  gathered' : Gathered d.registry.index.policy d'
  bound' : ∀ i < d'.hierarchy.size, (d'.hierarchy.element i).isBound = true
  nodup : (d.hierarchy.listings.map Listing.fullName).Nodup
  perm : d.hierarchy.listings.Perm d'.hierarchy.listings
  namespaces : d.hierarchy.listings.filter (·.kind = .ns) =
    d'.hierarchy.listings.filter (·.kind = .ns)

namespace Twins

theorem symm (ht : Twins d d') : Twins d' d where
  taking := ht.taking'
  gathered := ht.gathered'.policy ▸ ht.gathered'
  bound := ht.bound'
  taking' := ht.taking
  gathered' := ht.gathered'.policy ▸ ht.gathered
  bound' := ht.bound
  nodup := (ht.perm.map _).nodup_iff.1 ht.nodup
  perm := ht.perm.symm
  namespaces := ht.namespaces.symm

variable (ht : Twins d d')
include ht

theorem left (hi : i ∈ d.hierarchy.indexed) : ∃ j, sameListing d.hierarchy d'.hierarchy i j := by
  have hl : d.hierarchy.listing i ∈ d'.hierarchy.listings :=
    ht.perm.subset (List.mem_map_of_mem hi)
  obtain ⟨j, hj, he⟩ := List.mem_map.1 hl
  exact ⟨j, hi, hj, he.symm⟩

theorem eq_of_fullName (hi : i ∈ d.hierarchy.indexed) (hj : j ∈ d.hierarchy.indexed)
    (he : d.hierarchy.fullName i = d.hierarchy.fullName j) : i = j :=
  Build.eq_of_fullName ht.nodup hi hj he

theorem unique {a b : ElementId} (hij : sameListing d.hierarchy d'.hierarchy i j)
    (hab : sameListing d.hierarchy d'.hierarchy a b) (he : j = b) : i = a := by
  refine ht.eq_of_fullName hij.1 hab.1 ?_
  have hlisting := hij.2.2.trans (he ▸ hab.2.2.symm)
  exact congrArg Listing.fullName hlisting

/-- What stands below something and is indexed, stands below a namespace. -/
theorem indexed_of_owner (hi : i ∈ d.hierarchy.indexed) (ho : d.hierarchy.owner i = .element q) :
    q ∈ d.hierarchy.indexed := by
  have horderly := ht.taking.sound.orderly
  have hkind : d.hierarchy.kind q = .ns := by
    have hindexed := (Hierarchy.mem_indexed.1 hi).2
    rw [Kind.isIndexed, Bool.or_eq_true, decide_eq_true_eq] at hindexed
    rcases hindexed with htype | hns
    · exact ht.gathered.flat ho htype
    · exact absurd ho (horderly.owner_of_ns hns)
  exact Hierarchy.mem_indexed.2 ⟨horderly.owner_lt ho, by rw [hkind]; rfl⟩

theorem placed (hij : sameListing d.hierarchy d'.hierarchy i j) :
    Placed (sameListing d.hierarchy d'.hierarchy) (d.hierarchy.owner i) (d'.hierarchy.owner j) := by
  obtain ⟨hi, hj, he⟩ := hij
  have hsite : (d.hierarchy.owner i).element?.map d.hierarchy.fullName =
      (d'.hierarchy.owner j).element?.map d'.hierarchy.fullName := congrArg Listing.site he
  have hwhole := ht.gathered.whole i (Hierarchy.mem_indexed.1 hi).1
  have hwhole' := ht.gathered'.whole j (Hierarchy.mem_indexed.1 hj).1
  cases ho : d.hierarchy.owner i with
  | detached => exact absurd ho hwhole
  | root =>
    cases ho' : d'.hierarchy.owner j with
    | root => exact .root
    | detached => exact absurd ho' hwhole'
    | element b =>
      rw [ho, ho'] at hsite
      cases hsite
  | element a =>
    cases ho' : d'.hierarchy.owner j with
    | detached => exact absurd ho' hwhole'
    | root =>
      rw [ho, ho'] at hsite
      cases hsite
    | element b =>
      rw [ho, ho'] at hsite
      have hname : d.hierarchy.fullName a = d'.hierarchy.fullName b := Option.some.inj hsite
      obtain ⟨c, hac⟩ := ht.left (ht.indexed_of_owner hi ho)
      have hcb : c = b := ht.symm.eq_of_fullName hac.2.1 (ht.symm.indexed_of_owner hj ho')
        ((congrArg Listing.fullName hac.2.2).symm.trans hname)
      exact .element (hcb ▸ hac)

theorem forall₂_namespaces : List.Forall₂ (sameListing d.hierarchy d'.hierarchy)
    d.hierarchy.namespaces d'.hierarchy.namespaces := by
  have hmap : ∀ {h : Hierarchy}, h.InOrder →
      h.listings.filter (·.kind = .ns) = h.namespaces.map h.listing := by
    intro h ho
    rw [Hierarchy.listings, List.filter_map, ho, Hierarchy.indexed, List.filter_filter]
    congr 1
    refine List.filter_congr fun i _ => ?_
    change (decide (h.kind i = .ns) && (h.kind i).isIndexed) = decide (h.kind i = .ns)
    by_cases hk : h.kind i = .ns
    · simp [hk, Kind.isIndexed]
    · simp [hk]
  have hnames := ht.namespaces
  rw [hmap ht.gathered.inOrder, hmap ht.gathered'.inOrder] at hnames
  have hmem : ∀ {d : Draft}, d.Sound → ∀ i ∈ d.hierarchy.namespaces, i ∈ d.hierarchy.indexed := by
    intro d hs i hi
    refine Hierarchy.mem_indexed.2 ⟨hs.orderly.lt_size_of_mem_namespaces hi, ?_⟩
    rw [(hs.orderly.mem_namespaces.1 hi).1]
    rfl
  refine List.forall₂_iff_get.2 ⟨by simpa using congrArg List.length hnames, fun n hn hn' => ?_⟩
  refine ⟨hmem ht.taking.sound _ (List.get_mem _ _), hmem ht.taking'.sound _ (List.get_mem _ _), ?_⟩
  have hsame := List.getElem_of_eq hnames (i := n) (by rwa [List.length_map])
  rwa [List.getElem_map, List.getElem_map] at hsame

/-- What stands under a name in the one index has its counterpart in the other. -/
theorem exists_get? {key : String} {e : Entry}
    (he : d.registry.index.native.get? key = some e) :
    ∃ e', d'.registry.index.native.get? key = some e' ∧
      Matches (sameListing d.hierarchy d'.hierarchy) e e' := by
  obtain ⟨hkey, -⟩ := ht.taking.plain ht.nodup he
  obtain ⟨j, hj⟩ := ht.left (mem_indexed_of_points (t := .native) ht.taking.sound.points he)
  have hname : d.hierarchy.fullName e.id = d'.hierarchy.fullName j :=
    congrArg Listing.fullName hj.2.2
  obtain ⟨e', he'⟩ := (ht.taking'.entered hj.2.1 List.not_mem_nil).taken
  rw [← hname, ← hkey] at he'
  obtain ⟨hkey', -⟩ := ht.taking'.plain ht.symm.nodup he'
  have hid : e'.id = j := ht.symm.eq_of_fullName
    (mem_indexed_of_points (t := .native) ht.taking'.sound.points he') hj.2.1
    (by rw [← hkey', hkey, hname])
  refine ⟨e', he', hid ▸ hj, ?_⟩
  rw [← (ht.taking.sound.points (t := .native) he).2.1,
    ← (ht.taking'.sound.points (t := .native) he').2.1, hid]
  exact congrArg Listing.kind hj.2.2

theorem alike : Alike (sameListing d.hierarchy d'.hierarchy) d d' where
  sound := ht.taking.sound
  sound' := ht.taking'.sound
  left i hi := ht.left hi
  right j hj := by
    obtain ⟨i, hi⟩ := ht.symm.left hj
    exact ⟨i, flip_sameListing d'.hierarchy d.hierarchy ▸ hi⟩
  indexed hr := ⟨hr.1, hr.2.1⟩
  unique hij hab := by
    refine ⟨fun he => ?_, ht.unique hij hab⟩
    rw [← flip_sameListing] at hij hab
    exact ht.symm.unique hij hab he
  native {i j} hr := by
    have hl := hr.2.2
    have hb := (ht.bound i (Hierarchy.mem_indexed.1 hr.1).1).trans
      (ht.bound' j (Hierarchy.mem_indexed.1 hr.2.1).1).symm
    unfold Hierarchy.listing at hl
    injection hl with hkind hname hfull hsite
    exact Prod.ext hkind (Prod.ext hname (Prod.ext hfull hb))
  managed _ := (ht.gathered.unnamed _).trans (ht.gathered'.unnamed _).symm
  owner := ht.placed
  namespaces := ht.forall₂_namespaces
  policy := ht.gathered'.policy
  entries t key := by
    cases t with
    | managed =>
      change Option.Rel _ (d.registry.index.managed.get? key) (d'.registry.index.managed.get? key)
      rw [ht.taking.keyed.managed, ht.taking'.keyed.managed]
      exact .none
    | native =>
      change Option.Rel _ (d.registry.index.native.get? key) (d'.registry.index.native.get? key)
      cases he : d.registry.index.native.get? key with
      | some e =>
        obtain ⟨e', he', hm⟩ := ht.exists_get? he
        rw [he']
        exact .some hm
      | none =>
        cases he' : d'.registry.index.native.get? key with
        | none => exact .none
        | some e' =>
          obtain ⟨e, hsome, -⟩ := ht.symm.exists_get? he'
          rw [he] at hsome
          cases hsome

end Twins

/-- Forests that list the same, and namespaces in one order, are taken in with the same success. -/
theorem exists_twin (hperm : (rs.flatMap Record.listings).Perm (rs'.flatMap Record.listings))
    (hns : (rs.flatMap Record.listings).filter (·.kind = .ns) =
      (rs'.flatMap Record.listings).filter (·.kind = .ns))
    (hn : ((rs.flatMap Record.listings).map Listing.fullName).Nodup)
    (hd : ingest rs { registry := .empty policy } = .ok () d) :
    ∃ d', ingest rs' { registry := .empty policy } = .ok () d' ∧ Twins d d' := by
  have hn' : ((rs'.flatMap Record.listings).map Listing.fullName).Nodup :=
    (hperm.map _).nodup_iff.1 hn
  have hnames := (exists_ingest_iff hn).1 ⟨d, hd⟩
  have hexists : ∃ d', ingest rs' { registry := .empty policy } = .ok () d' :=
    (exists_ingest_iff hn').2 fun l hl => hnames l (hperm.mem_iff.2 hl)
  obtain ⟨d', hd'⟩ := hexists
  have ht := taking_of_ingest hd
  have ht' := taking_of_ingest hd'
  have hl : d.hierarchy.listings = rs.flatMap Record.listings := by
    rw [← ht.listings, List.append_nil]
  have hl' : d'.hierarchy.listings = rs'.flatMap Record.listings := by
    rw [← ht'.listings, List.append_nil]
  have hg := gathered_of_ingest hd
  rw [← hg.policy] at hd'
  refine ⟨d', hg.policy ▸ hd', ?_⟩
  exact
    { taking := hl ▸ ht
      gathered := hg.policy ▸ hg
      bound := fun i => isBound_of_ingest hd
      taking' := hl' ▸ ht'
      gathered' := gathered_of_ingest hd'
      bound' := fun i => isBound_of_ingest hd'
      nodup := hl ▸ hn
      perm := hl ▸ hl' ▸ hperm
      namespaces := hl ▸ hl' ▸ hns }

end BindingTree

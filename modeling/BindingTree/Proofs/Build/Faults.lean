import BindingTree.Proofs.Build.Misspelt
import BindingTree.Proofs.Build.Smooth
import BindingTree.Proofs.Build.TypeNesting

/-! What can be at fault in a build: an empty name of a namespace or an enum at the top, an enum's
name that starts with a dot, or an empty name in the settings. Nothing else is: moves close no
cycles, since types go below shorter names and nothing that may own an enum stands below one;
interfaces stand below elements; records that are taken in have an element's kind; and what is below
an element has at least the dot of its full name to be entered under. A translator that finds faults
of its own is another matter. Nor is any move planned twice. -/

namespace BindingTree

open Build Naming

/-- What can be at fault, with the draft in which the build stops. An element that cannot be entered
stands at the top, or is the base of interfaces, which stands for no record. -/
def Plan.Refuses (p : Plan) (rs : List Record) : ElementFault → Draft → Prop
  | .leadingDot name, _ => name.toList.head? = some '.' ∧ ∃ r ∈ rs, r.tag = .enum ∧ r.name = name
  | .emptyKey kind i, d =>
    (kind = .iface ∧ (d.hierarchy.element i).isBound = false ∧ p.settings.baseInterface = "") ∨
      d.hierarchy.owner i = .root ∧
        (kind = .enum ∧ (∃ r ∈ rs, r.tag = .enum ∧ r.name = "") ∨
          kind = .ns ∧ ((∃ r ∈ rs, r.tag = .ns ∧ r.name = "") ∨ p.settings.runtimeNamespace = "" ∨
            p.settings.makeRootType = true ∧ p.settings.rootType = ""))
  | .cycle _ _, _ => False
  | .noKind _, _ => False
  | .rootedInterface _, _ => False

namespace Build

variable {p : Plan} {rs : List Record} {s : Settings} {t : Translator} {d d' : Draft}
  {h : Hierarchy} {i q : ElementId} {name : String} {fault : ElementFault}
  {may : ElementFault → Draft → Prop}

/-! ### Taking records in -/

section Reports
/- Whatever may be at fault in it, taking records in plans no moves. -/

theorem smooth_create {head : Record.Head} {o : Owner} :
    Smooth (fun _ _ => True) (create head o) d := by
  unfold create
  split
  · exact smooth_fail fun _ _ => trivial
  · refine smooth_bind smooth_hierarchy fun h d₁ _ => smooth_bind smooth_make fun id d₂ _ => ?_
    split
    · exact smooth_bind (smooth_addMember fun _ => trivial) fun _ _ _ => smooth_pure
    · exact smooth_bind smooth_pure fun _ _ _ => smooth_pure

theorem smooth_inherit {head : Record.Head} : Smooth may (inherit q head) d := by
  unfold inherit
  split
  · exact smooth_editElement
  · exact smooth_pure

mutual

theorem smooth_ingestChild (q : ElementId) : ∀ (r : Record) (d : Draft),
    Smooth (fun _ _ => True) (ingestChild q r) d
  | ⟨head, children⟩, d => by
    rw [ingestChild]
    refine smooth_bind smooth_element fun owner d₁ _ => ?_
    split
    · refine smooth_bind smooth_create fun id d₂ _ => smooth_bind smooth_inherit fun _ d₃ _ =>
        smooth_bind (smooth_ingestChildren id children d₃) fun _ d₄ _ =>
          smooth_bind smooth_element fun e d₅ _ => ?_
      split
      · exact smooth_addNative fun _ => trivial
      · exact smooth_pure
    · exact smooth_notice (by rw [Notice.kind]; decide)

theorem smooth_ingestChildren (q : ElementId) : ∀ (rs : List Record) (d : Draft),
    Smooth (fun _ _ => True) (ingestChildren q rs) d
  | [], d => by
    rw [ingestChildren]
    exact smooth_pure
  | r :: rs, d => by
    rw [ingestChildren]
    exact smooth_bind (smooth_ingestChild q r d) fun _ d₁ _ => smooth_ingestChildren q rs d₁

end

theorem smooth_ingestNamespace {r : Record} : Smooth (fun _ _ => True) (ingestNamespace r) d :=
  smooth_bind smooth_create fun id _ _ => smooth_bind smooth_edit fun _ d₁ _ =>
    smooth_bind (smooth_ingestChildren id r.children d₁) fun _ _ _ => smooth_addNative fun _ => trivial

theorem smooth_ingestEnum {r : Record} : Smooth (fun _ _ => True) (ingestEnum r) d := by
  unfold ingestEnum
  have hrest : ∀ d, Smooth (fun _ _ => True) (do
      let id ← create r.head .root
      editElement id fun e => { e with name := (splitLast r.name).2 }
      edit (·.listEnum id)
      ingestChildren id r.children
      addNative id) d := fun d =>
    smooth_bind smooth_create fun id _ _ => smooth_bind smooth_editElement fun _ _ _ =>
      smooth_bind smooth_edit fun _ d₁ _ =>
        smooth_bind (smooth_ingestChildren id r.children d₁) fun _ _ _ =>
          smooth_addNative fun _ => trivial
  split
  · exact smooth_bind (smooth_fail fun _ _ => trivial) fun _ d₁ _ => hrest d₁
  · exact hrest d

theorem unmoved_of_ingest (hu : d.registry.Unmoved) :
    (ending (ingest rs d)).registry.Unmoved := by
  have hsmooth : Smooth (fun _ _ => True) (ingest rs) d := smooth_forM_always fun r d => by
    split
    · exact smooth_ingestNamespace
    · exact smooth_ingestEnum
    · exact smooth_notice (by rw [Notice.kind]; decide)
  exact hsmooth.unmoved hu

end Reports

theorem fullName_of_listingBelow? {head : Record.Head} {ns : String} {l : Listing}
    (hl : head.listingBelow? ns = some l) : ∃ n, l.fullName = ns ++ "." ++ n := by
  unfold Record.Head.listingBelow? at hl
  dsimp only at hl
  split at hl <;> cases hl <;> exact ⟨_, rfl⟩

/-- The empty name of an element that was taken in is that of a record at the top. -/
theorem refuses_of_taking {later : List ElementId} {rest : List Listing}
    (ht : Taking (rs.flatMap Record.listings) (i :: later) rest d)
    (hempty : d.hierarchy.fullName i = "") : p.Refuses rs (.emptyKey (d.hierarchy.kind i) i) d := by
  have hi := ht.indexed i List.mem_cons_self
  have hlisted : d.hierarchy.listing i ∈ rs.flatMap Record.listings := by
    rw [← ht.listings]
    exact List.mem_append_left _ (List.mem_map_of_mem hi)
  have hroot : (d.hierarchy.listing i).site = none → (d.hierarchy.kind i).isIndexed = true →
      d.hierarchy.owner i = .root := by
    intro hsite hindexed
    change (d.hierarchy.owner i).element?.map _ = none at hsite
    cases ho : d.hierarchy.owner i with
    | root => rfl
    | element q =>
      rw [ho] at hsite
      cases hsite
    | detached =>
      rw [ht.sound.orderly.attached (Hierarchy.mem_indexed.1 hi).1 ho] at hindexed
      cases hindexed
  rcases mem_listings hlisted with ⟨r, hr, htag, hns | ⟨c, -, hc⟩⟩ | ⟨r, hr, htag, henum⟩
  · have hkind : d.hierarchy.kind i = .ns := congrArg Listing.kind hns
    have hname : d.hierarchy.fullName i = r.name := congrArg Listing.fullName hns
    refine .inr ⟨hroot (congrArg Listing.site hns) (by rw [hkind]; rfl), .inr ⟨hkind, .inl ?_⟩⟩
    exact ⟨r, hr, htag, hname.symm.trans hempty⟩
  · obtain ⟨n, hn⟩ := fullName_of_listingBelow? hc
    exact absurd (hn.symm.trans hempty) (dotted_ne_empty _ _)
  · have hkind : d.hierarchy.kind i = .enum := congrArg Listing.kind henum
    have hname : d.hierarchy.fullName i = r.name := congrArg Listing.fullName henum
    refine .inr ⟨hroot (congrArg Listing.site henum) (by rw [hkind]; rfl), .inl ⟨hkind, ?_⟩⟩
    exact ⟨r, hr, htag, hname.symm.trans hempty⟩

theorem refuses_of_ingest (hd : ingest rs p.blank = .error (.invalidElement fault) d') :
    p.Refuses rs fault d' := by
  have ho := outcome_blank rs p.settings.policy
  change Outcome _ _ _ _ (ingest rs p.blank) at ho
  rw [hd] at ho
  cases ho with
  | dotted hl hk hdot =>
    refine ⟨hdot, ?_⟩
    rcases mem_listings hl with ⟨r, -, -, rfl | ⟨c, -, hc⟩⟩ | ⟨r, hr, htag, rfl⟩
    · cases hk
    · obtain ⟨hcls | hface, -⟩ := listingBelow?_some hc
      · cases hcls.symm.trans hk
      · cases hface.symm.trans hk
    · exact ⟨r, hr, htag, rfl⟩
  | refused ht he => exact (smooth_addNative (refuses_of_taking ht)).faults he

theorem smooth_ingest : Smooth (p.Refuses rs) (ingest rs) p.blank :=
  ⟨refuses_of_ingest, unmoved_of_ingest⟩

/-! ### Supporting types -/

theorem smooth_makeNamespace (hmay : name = "" → may (.emptyKey .ns d.hierarchy.size)
    { d with hierarchy := d.hierarchy.putNamespace (supportNamespace name) }) :
    Smooth may (makeNamespace name) d := by
  refine smooth_bind smooth_make fun id d₁ hmake => ?_
  obtain ⟨rfl, rfl⟩ := make_ok.1 hmake
  refine smooth_bind smooth_edit fun _ d₂ hedit => ?_
  obtain rfl := edit_ok.1 hedit
  refine smooth_bind (smooth_enter fun hempty => ?_) fun _ _ _ => smooth_pure
  change (d.hierarchy.putNamespace (supportNamespace name)).fullName d.hierarchy.size = "" at hempty
  have hf : d.hierarchy.Fresh _ .root (supportNamespace name) := .putNamespace
  rw [Hierarchy.fullName, hf.element_new] at hempty
  change may (.emptyKey ((d.hierarchy.putNamespace (supportNamespace name)).kind _) _) _
  rw [hf.kind_new]
  exact hmay hempty

theorem smooth_makeType {ns : ElementId} {kind : TypeKind} {fullName : String} {useGlobal : Bool}
    (hs : d.Sound) (hns : ns ∈ d.hierarchy.namespaces)
    (hmay : fullName = "" → may (.emptyKey kind.kind d.hierarchy.size)
      { d with hierarchy := d.hierarchy.putBelow ns (supportType kind fullName useGlobal) }) :
    Smooth may (makeType ns kind fullName useGlobal) d := by
  refine smooth_bind smooth_make fun id d₁ hmake => ?_
  obtain ⟨rfl, rfl⟩ := make_ok.1 hmake
  refine smooth_bind (smooth_addMember fun hcycle => ?_) fun _ d₂ hadd => ?_
  · have hlt := hs.orderly.lt_size_of_mem_namespaces hns
    rcases hcycle with rfl | habove
    · exact absurd hlt (Nat.lt_irrefl _)
    · exact absurd habove (size_not_mem_ancestors hs)
  obtain ⟨-, -, rfl⟩ := addMember_ok.1 hadd
  refine smooth_enter fun hempty => ?_
  change (d.hierarchy.putBelow ns (supportType kind fullName useGlobal)).fullName d.hierarchy.size = ""
    at hempty
  have hf : d.hierarchy.Fresh _ (.element ns) (supportType kind fullName useGlobal) := .putBelow
  rw [Hierarchy.fullName, hf.element_new] at hempty
  change may (.emptyKey ((d.hierarchy.putBelow ns (supportType kind fullName useGlobal)).kind _) _) _
  rw [hf.kind_new]
  exact hmay hempty

theorem smooth_runtimeNamespace :
    Smooth (p.Refuses rs) (runtimeNamespace p.settings.runtimeNamespace) d := by
  refine smooth_bind smooth_hierarchy fun h d₁ _ => ?_
  split
  · exact smooth_pure
  · refine smooth_bind (smooth_makeNamespace fun hempty => ?_) fun _ _ _ =>
      smooth_bind smooth_editElement fun _ _ _ => smooth_pure
    exact .inr ⟨Hierarchy.Fresh.putNamespace.owner_new, .inr ⟨rfl, .inr (.inl hempty)⟩⟩

theorem smooth_rootNamespace (hmake : p.settings.makeRootType = true) :
    Smooth (p.Refuses rs) (rootNamespace p.settings.rootType) d := by
  unfold rootNamespace
  split
  next name hq =>
    refine smooth_bind smooth_hierarchy fun h d₁ _ => ?_
    split
    · exact smooth_pure
    · exact smooth_makeNamespace fun hempty => absurd hempty (splitLast_eq_some.1 hq).1
  · refine smooth_makeNamespace fun hempty => ?_
    exact .inr ⟨Hierarchy.Fresh.putNamespace.owner_new, .inr ⟨rfl, .inr (.inr ⟨hmake, hempty⟩)⟩⟩

/-- Without a name for the root type there is no namespace for it. -/
theorem rootType_ne_of_rootNamespace {ns : ElementId} {rootType : String}
    (hd : rootNamespace rootType d = .ok ns d') : rootType ≠ "" := by
  rintro rfl
  have hq : (splitLast "").1 = none := rfl
  unfold rootNamespace at hd
  rw [hq] at hd
  obtain ⟨-, r, hr, -⟩ := makeNamespace_ok hd
  exact (Registry.insert_cases hr).1 rfl

theorem smooth_ensureRootType (hs : d.Sound) (hmake : p.settings.makeRootType = true) :
    Smooth (p.Refuses rs) (ensureRootType p.settings.rootType) d := by
  refine smooth_bind smooth_index fun ix d₁ hindex => ?_
  obtain ⟨rfl, rfl⟩ := index_ok.1 hindex
  dsimp only
  split
  · exact smooth_pure
  next hnone =>
    refine smooth_bind (smooth_rootNamespace hmake) fun ns d₂ hroot => ?_
    have hfound : ∀ e, d.registry.index.lookup? p.settings.rootType (some .cls) = some e →
        e.kind ≠ .cls := by
      rintro e he hcls
      exact hnone (by simp [he, hcls, Kind.isClass])
    obtain ⟨hsteps, hns, -⟩ := rootNamespace_ok hs hfound hroot
    exact smooth_makeType (sound_of_support hsteps hs) hns fun hempty =>
      absurd hempty (rootType_ne_of_rootNamespace hroot)

theorem smooth_bootstrap (hs : d.Sound) : Smooth (p.Refuses rs) (bootstrap p.settings) d := by
  refine smooth_bind smooth_runtimeNamespace fun runtime d₁ hruntime => ?_
  obtain ⟨hsteps, hns⟩ := runtimeNamespace_ok hs hruntime
  have hs₁ : d₁.Sound := sound_of_support hsteps hs
  refine smooth_bind smooth_hierarchy fun h d₂ hh => ?_
  obtain ⟨rfl, rfl⟩ := hierarchy_ok.1 hh
  have hroot : ∀ d, d.Sound → Smooth (p.Refuses rs)
      (if p.settings.makeRootType then ensureRootType p.settings.rootType else pure ()) d := by
    intro d hs
    split
    next hmake => exact smooth_ensureRootType hs hmake
    · exact smooth_pure
  by_cases hface : hasInterface d₁.hierarchy runtime p.settings.baseInterface = true
  · simp only [if_pos hface]
    exact hroot d₁ hs₁
  · simp only [if_neg hface]
    refine smooth_bind (smooth_makeType hs₁ hns fun hempty => .inl ⟨rfl, ?_, hempty⟩)
      fun _ d₂ hmake => ?_
    · exact congrArg Element.isBound Hierarchy.Fresh.putBelow.element_new
    obtain ⟨r, hr, rfl⟩ := makeType_ok hmake
    have hstep : Support p.settings d₁ _ := .type hns (.inl ⟨rfl, rfl⟩) hr
    exact hroot _ (hstep.sound hs₁)

/-! ### Nesting -/

theorem smooth_nestTypes (hn : Nestable d) : Smooth may nestTypes d := by
  have hnodup := nodup_listedTypes hn.sound.orderly.toWellFormed
  refine smooth_bind smooth_hierarchy fun h d₁ hh => ?_
  obtain ⟨rfl, rfl⟩ := hierarchy_ok.1 hh
  refine smooth_bind (smooth_planMoves hnodup fun _ _ => rfl) fun m d₁ hplan => ?_
  obtain ⟨rfl, -, hentries⟩ := planMoves_ok hnodup (fun _ _ => rfl) hplan
  change m.entries = nestMoves Kind.isClass d₁ (listedTypes d₁.hierarchy) at hentries
  obtain ⟨h', hmade⟩ := hn.exists_makeAll
  exact smooth_bind (smooth_apply (hentries ▸ hmade)) fun _ _ _ =>
    smooth_forM_always fun _ _ => smooth_edit

/-- Nothing that may own an enum stands below one, so enums can be moved. -/
theorem exists_enumMoves (hs : d.Sound) :
    ∃ h, Moves.makeAll (nestMoves ownsEnums d d.hierarchy.rootEnums) d.hierarchy = .ok () h := by
  refine Moves.exists_makeAll (I := fun g => g.Orderly ∧ d.hierarchy.SameElements g) ?_
    ⟨hs.orderly, .refl _⟩
  rintro g i p hmem ⟨ho, hsame⟩
  obtain ⟨hi, hp⟩ := mem_nestMoves.1 hmem
  have henum : g.kind i = .enum := hsame.kind ▸ (hs.orderly.mem_rootEnums.1 hi).1
  obtain ⟨-, -, -, -, -, hne, hown⟩ := nest?_eq_some.1 hp
  rw [← hsame.kind] at hown
  have habove : ¬ g.Above i p := by
    intro ha
    have hbelow := belowEnum_of_above ho henum ha
    revert hbelow hown
    cases g.kind p <;> decide
  refine ⟨hne, fun hia => habove (ho.mem_ancestors.1 hia), ?_, hsame.trans .move⟩
  refine ho.move (hsame.size ▸ lt_size_of_nest? hs hp)
    (hsame.size ▸ lt_size_of_mem_rootEnums hs i hi) hne habove ?_
  rw [henum]
  revert hown
  cases g.kind p <;> decide

section Enums
variable (ht : ∀ fault, t.Fails (.invalidElement fault) → ∀ d, may fault d)
include ht

/-- The full name of a nested enum has a dot. -/
theorem smooth_renameEnum (ho : d.hierarchy.owner i = .element q) :
    Smooth may (renameEnum t i) d := by
  have hlt : i < d.hierarchy.size := Hierarchy.lt_size_of_owner_ne (by simp [ho])
  have hnamed : Smooth may (do
      addNative i
      assignManagedNamesFrom t i)
        ⟨fullyNamed d.hierarchy i, withoutNames d.registry i (d.hierarchy.element i)⟩ := by
    refine smooth_bind (smooth_addNative fun hempty => ?_) fun _ _ _ =>
      smooth_assignManagedNamesFrom ht
    rw [Hierarchy.fullName, fullyNamed, Hierarchy.element_modify_self hlt, ho] at hempty
    exact absurd hempty (dotted_ne_empty _ _)
  have hlog : (withoutNames d.registry i (d.hierarchy.element i)).log = d.registry.log := by
    unfold withoutNames
    cases (d.hierarchy.element i).fullManagedName <;> rfl
  constructor
  · intro fault d' hd
    rw [renameEnum_run] at hd
    exact hnamed.faults hd
  · intro hu
    rw [renameEnum_run]
    refine hnamed.unmoved fun n hn => hu n ?_
    rwa [← hlog]

theorem smooth_nestEnums (hs : d.Sound) : Smooth may (nestEnums t) d := by
  have hnodup := nodup_rootEnums hs
  refine smooth_bind smooth_hierarchy fun h d₁ hh => ?_
  obtain ⟨rfl, rfl⟩ := hierarchy_ok.1 hh
  refine smooth_bind (smooth_planMoves hnodup fun _ _ => rfl) fun m d₁ hplan => ?_
  obtain ⟨rfl, -, hentries⟩ := planMoves_ok hnodup (fun _ _ => rfl) hplan
  change m.entries = nestMoves ownsEnums d₁ d₁.hierarchy.rootEnums at hentries
  obtain ⟨h', hmade⟩ := exists_enumMoves hs
  have hall : Moves.makeAll m.entries d₁.hierarchy = .ok () h' := hentries ▸ hmade
  refine smooth_bind (smooth_apply hall) fun keys d₂ happly => ?_
  obtain ⟨h₁, hmoved, rfl⟩ := onHierarchy_ok.1 happly
  obtain ⟨hmade', rfl⟩ := Moves.apply_ok.1 hmoved
  cases hall.symm.trans hmade'
  have hrenamable : Renamable m.keys h' := by
    have hkeys : m.keys = (nestMoves ownsEnums d₁ d₁.hierarchy.rootEnums).map Prod.fst :=
      congrArg (List.map Prod.fst) hentries
    exact hkeys ▸ renamable_of_enumMoves hs hmade
  refine smooth_forM (I := fun is d => Renamable is d.hierarchy) ?_ ?_ hrenamable
  · intro i is d hr
    obtain ⟨q, hq, -⟩ := hr.owned i List.mem_cons_self
    exact smooth_renameEnum ht hq
  · intro i is d d' hr hi
    have hatt := hr.attached List.mem_cons_self
    exact hr.tail (renamedOver_of_rename (Hierarchy.lt_size_of_owner_ne hatt) hi).toSamePlaces

end Enums

/-! ### Invokers -/

section Invokers
variable (ht : ∀ fault, p.translator.Fails (.invalidElement fault) → ∀ d, may fault d)
include ht

theorem smooth_makeInvoker (hs : d.Sound) (hi : i < d.hierarchy.size)
    (hk : d.hierarchy.kind i = .iface) : Smooth may (makeInvoker p i) d := by
  have hatt : d.hierarchy.owner i ≠ .detached := fun hdetached => by
    cases hk.symm.trans (hs.orderly.attached hi hdetached)
  obtain ⟨q, hq⟩ := hs.orderly.exists_owner hatt (by simp [hk]) (by simp [hk])
  refine smooth_bind smooth_hierarchy fun h d₁ hh => ?_
  obtain ⟨rfl, rfl⟩ := hierarchy_ok.1 hh
  simp only [hq]
  refine smooth_bind smooth_make fun id d₁ hmake => ?_
  obtain ⟨rfl, rfl⟩ := make_ok.1 hmake
  refine smooth_bind (smooth_addMember fun hcycle => ?_) fun _ d₂ hadd => ?_
  · rcases hcycle with rfl | habove
    · exact absurd (hs.orderly.owner_lt hq) (Nat.lt_irrefl _)
    · exact absurd habove (size_not_mem_ancestors hs)
  obtain ⟨-, -, rfl⟩ := addMember_ok.1 hadd
  refine smooth_bind (smooth_assignManagedName ht) fun _ d₃ hassign => ?_
  refine smooth_bind (smooth_addNative fun hempty => ?_) fun _ _ _ => smooth_editElement
  -- The full name of the invoker goes on from that of its owner.
  have hf : d.hierarchy.Fresh (besideInterface p d.hierarchy q i) (.element q)
    (invokerOf p.settings d.hierarchy q i) := .putBelow
  have hname : d₃.hierarchy.fullName d.hierarchy.size =
      (besideInterface p d.hierarchy q i).fullName d.hierarchy.size :=
    (namedOver_of_assign hassign).fullName
  rw [hname, Hierarchy.fullName, hf.element_new] at hempty
  exact absurd hempty (dotted_ne_empty _ _)

theorem smooth_makeInvokers (hs : d.Sound) : Smooth may (makeInvokers p) d := by
  refine smooth_bind smooth_hierarchy fun h d₁ hh => ?_
  obtain ⟨rfl, rfl⟩ := hierarchy_ok.1 hh
  refine smooth_forM (I := fun is d => d.Sound ∧ Callable is d.hierarchy) ?_ ?_
    ⟨hs, callable_of_lacking hs.orderly⟩
  · rintro i is d ⟨hs, hcall⟩
    obtain ⟨hlt, hk⟩ := hcall i List.mem_cons_self
    exact smooth_makeInvoker ht hs hlt hk
  · rintro i is d d' ⟨hs, hcall⟩ hi
    obtain ⟨hs', hmade⟩ := invokersMade_of_make hs (hcall i List.mem_cons_self).2 hi
    exact ⟨hs', hcall.tail hmade⟩

end Invokers

end Build

/-! ### The whole build -/

variable {p : Plan} {rs : List Record}

/-- What is at fault where a build stops is refused, or the translator finds it. -/
theorem smooth_passes : Smooth (fun fault d => p.Refuses rs fault d ∨
    p.translator.Fails (.invalidElement fault)) (p.passes rs) p.blank := by
  have ht : ∀ fault, p.translator.Fails (.invalidElement fault) → ∀ d,
      p.Refuses rs fault d ∨ p.translator.Fails (.invalidElement fault) := fun _ hf _ => .inr hf
  refine smooth_bind (smooth_ingest.mono fun _ _ => .inl) fun _ d₁ hingest => ?_
  have hn₁ : Nestable d₁ := nestable_of_ingest hingest
  refine smooth_bind ((smooth_bootstrap hn₁.sound).mono fun _ _ => .inl) fun _ d₂ hbootstrap => ?_
  have hn₂ := nestable_of_support (bootstrap_ok hn₁.sound hbootstrap) hn₁
  refine smooth_bind (smooth_nestTypes hn₂) fun _ d₃ htypes => ?_
  obtain ⟨-, h₃, rfl, hnested⟩ := nestTypes_ok hn₂.sound hn₂.noInvoker htypes
  have hs₃ : ({ d₂ with hierarchy := h₃ } : Draft).Sound :=
    hn₂.sound.extend hnested.orderly (Nat.le_of_eq hnested.size.symm) fun _ _ => hnested.kind
  refine smooth_bind (smooth_assignManagedNames ht) fun _ d₄ hassign => ?_
  obtain ⟨_, _, hh, hnames⟩ := bind_ok.1 hassign
  obtain ⟨rfl, rfl⟩ := hierarchy_ok.1 hh
  have hs₄ := sound_of_forM_assign hs₃ (fun _ => hs₃.orderly.lt_size_of_mem_walkAll) hnames
  refine smooth_bind (smooth_nestEnums ht hs₄) fun _ d₅ henums => ?_
  have hs₅ := (nestEnums_ok hs₄ henums).2.1
  exact smooth_bind (smooth_makeInvokers ht hs₅) fun _ _ _ =>
    smooth_bind smooth_resolveBaseTypes fun _ _ _ => smooth_mark

/-- Only an empty name or an enum's leading dot can be at fault in a build, unless the translator
refuses names for something other than that they are invalid identifiers. And no build reports that
something is moved twice. -/
theorem refuses_of_build :
    (p.translator.OnlyInvalid → ∀ fault, (p.build rs).result = .error (.invalidElement fault) →
      ∃ d, p.passes rs p.blank = .error (.invalidElement fault) d ∧ p.Refuses rs fault d) ∧
    ∀ n ∈ (p.build rs).diagnostics, n.kind ≠ .alreadyMoved := by
  constructor
  · intro ht fault hb
    obtain hempty | ⟨d, hd⟩ := build_error hb
    · cases hempty
    · refine ⟨d, hd, (smooth_passes.faults hd).resolve_right fun hf => ?_⟩
      obtain ⟨e, he⟩ := ht hf
      cases he
  · have hblank : p.blank.registry.Unmoved := fun n hn => by cases hn
    have hunmoved := (@smooth_passes p rs).unmoved hblank
    intro n hn
    obtain ⟨m, hm, rfl⟩ := List.mem_map.1 hn
    unfold Plan.build at hm
    split at hm
    · cases hm
    · split at hm
      next d hd =>
        rw [hd] at hunmoved
        exact hunmoved m hm
      next failure d hd =>
        rw [hd] at hunmoved
        exact hunmoved m hm

/-- An enum whose name starts with a dot, after a namespace with a class that is called like it. -/
def dottedRecords : List Record :=
  [.plain (.ns {}) "a" [.plain (.cls {}) "a.a" []], .plain (.enum {}) ".Mode" []]

theorem refuses_of_dotted : samplePlan.translator.OnlyInvalid ∧
    (samplePlan.build dottedRecords).result = .error (.invalidElement (.leadingDot ".Mode")) ∧
      (∃ d, samplePlan.Refuses dottedRecords (.leadingDot ".Mode") d) ∧
        ∀ n ∈ (samplePlan.build dottedRecords).diagnostics, n.kind ≠ .alreadyMoved := by
  have hb : (samplePlan.build dottedRecords).result =
    .error (.invalidElement (.leadingDot ".Mode")) := build_fails _ _ _ (by decide +kernel)
  have ht : samplePlan.translator.OnlyInvalid := isBuiltIn_samplePlan.onlyInvalid
  obtain ⟨hfaults, hquiet⟩ := @refuses_of_build samplePlan dottedRecords
  obtain ⟨d, -, hd⟩ := hfaults ht _ hb
  exact ⟨ht, hb, ⟨d, hd⟩, hquiet⟩

/-- A plan whose translator takes every name but those of fields for a cycle. -/
def faultyPlan : Plan :=
  { samplePlan with translator := { samplePlan.translator with
      translate name := .error (.invalidElement (.cycle name name)) } }

/-- A build fails with what its translator answers, though nothing else could make it fail so. -/
theorem cycle_of_faulty : ¬ faultyPlan.translator.OnlyInvalid ∧
    (faultyPlan.build sampleRecords).result = .error (.invalidElement (.cycle "a.b" "a.b")) ∧
      ∀ d, ¬ faultyPlan.Refuses sampleRecords (.cycle "a.b" "a.b") d := by
  refine ⟨fun ht => ?_, build_fails _ _ _ (by decide +kernel), fun _ hd => hd⟩
  have hanswer : faultyPlan.translator.Fails (.invalidElement (.cycle "a" "a")) := ⟨"a", .inl rfl⟩
  obtain ⟨e, he⟩ := ht hanswer
  cases he

end BindingTree

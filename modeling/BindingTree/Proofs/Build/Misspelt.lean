import BindingTree.Proofs.Build.EnumNames
import BindingTree.Proofs.Build.Ready
import BindingTree.Proofs.Build.Steps

/-! Names of supporting types that a build does not find. The types that default base types point at
are made if they are not there, but what counts as being there is more than what look-ups find: a
namespace or an interface is recognized in any case, while look-ups go by the exact name. So a build
can miss one of their names though no record refers to supporting types, but only where a record
misspells that name. -/

namespace BindingTree

open Build Naming

/-- Settings under which the base of interfaces lies in the namespace for supporting types, and the
root type is made, in a namespace. -/
structure Settings.Conventional (s : Settings) : Prop where
  base : (splitLast s.baseInterface).1 = some s.runtimeNamespace
  root : ∃ q, (splitLast s.rootType).1 = some q
  makesRoot : s.makeRootType = true
  colonless : ∀ n ∈ s.supportNames, Naming.Colonless n

/-- What concerns supporting types is set as it is by default. -/
structure Settings.DefaultSupport (s : Settings) : Prop where
  runtimeNamespace : s.runtimeNamespace = ({} : Settings).runtimeNamespace
  baseInterface : s.baseInterface = ({} : Settings).baseInterface
  rootType : s.rootType = ({} : Settings).rootType
  makeRootType : s.makeRootType = ({} : Settings).makeRootType

variable {p : Plan} {s : Settings} {t : Naming.Translator} {rs : List Record} {d d' : Draft}
  {i : ElementId} {name : String} {onBehalfOf : Option String}

theorem Settings.DefaultSupport.conventional (hs : s.DefaultSupport) : s.Conventional where
  base := by
    rw [hs.baseInterface, hs.runtimeNamespace]
    decide +kernel
  root := by
    rw [hs.rootType]
    exact ⟨"java.lang", by decide +kernel⟩
  makesRoot := hs.makeRootType
  colonless := by
    unfold supportNames Naming.Colonless
    rw [hs.runtimeNamespace, hs.baseInterface, hs.rootType]
    decide +kernel

/-- The qualifiers of supporting types are names that settings refer to. -/
theorem Settings.Conventional.qualifier_mem (hc : s.Conventional)
    (hname : name = s.rootType ∨ name = s.baseInterface) :
    ∃ q ∈ s.supportNames, (splitLast name).1 = some q := by
  rcases hname with rfl | rfl
  · obtain ⟨q, hq⟩ := hc.root
    exact ⟨q, by simp [supportNames, hq], hq⟩
  · exact ⟨s.runtimeNamespace, by simp [supportNames], hc.base⟩

/-! ### The pass over types -/

theorem ns_mem_listings {r : Record} (hr : r ∈ rs) (ht : r.tag = .ns) :
    ⟨.ns, r.name, r.name, none⟩ ∈ rs.flatMap Record.listings := by
  refine List.mem_flatMap.2 ⟨r, hr, ?_⟩
  rw [Record.listings, ht]
  exact List.mem_cons_self

/-- A type of a record goes by a namespace that is there, and the root type was put below its
qualifier; so only the base of interfaces can go by a name that leads nowhere. -/
theorem Stocked.misspelt_of_nestTypes (hk : Stocked s rs d) (hc : s.Conventional)
    (hu : Unmentioned s.supportNames rs) (hruntime : Provided s rs d s.runtimeNamespace)
    (hd : nestTypes d = .error (.typeNotFound name onBehalfOf) d') (hn : name ∈ s.supportNames) :
    Misspelt s rs name := by
  have ho := hk.nestable.sound.orderly
  obtain ⟨i, hi, q, hq, hnowhere, he⟩ := hk.nestable.nestTypes_error hd
  obtain ⟨rfl, -⟩ := Failure.typeNotFound.inj he
  have hfree : ¬ d.registry.index.Taken name := by
    intro htaken
    obtain ⟨e, he⟩ := htaken.lookup? none
    cases hnowhere.symm.trans he
  have htype := isType_of_mem_listedTypes hk.nestable.sound hi
  obtain ⟨ns, -, howner⟩ := (mem_listedTypes ho.toWellFormed).1 hi
  have hindexed : i ∈ d.hierarchy.indexed := Hierarchy.mem_indexed.2
    ⟨Hierarchy.lt_size_of_owner_ne (by simp [howner]), by rw [Kind.isIndexed, htype]; rfl⟩
  cases hk.known i hindexed with
  | record hl =>
    rcases mem_listings hl with ⟨r, hr, ht, hns | ⟨c, hchild, hcl⟩⟩ | ⟨r, hr, ht, henum⟩
    · rw [show d.hierarchy.kind i = .ns from congrArg Listing.kind hns] at htype
      cases htype
    · rcases hu.types r hr ht c hchild _ hcl name hq with rfl | hnot
      · exact absurd (hk.listed _ (ns_mem_listings hr ht)) hfree
      · exact absurd hn hnot
    · have hsite : (d.hierarchy.owner i).element?.map d.hierarchy.fullName = none :=
        congrArg Listing.site henum
      rw [howner] at hsite
      cases hsite
  | ns hns =>
    rw [hns] at htype
    cases htype
  | base _ hname =>
    rw [hname, hc.base] at hq
    cases hq
    exact hruntime.resolve_right hfree
  | root _ hname hplace =>
    rw [hname] at hq
    exact absurd (hplace _ hq) hfree

/-! ### The pass over enums -/

theorem Hierarchy.EnumsFrom.exists_record {h : Hierarchy} (hf : h.EnumsFrom rs)
    (hi : i ∈ h.rootEnums) : ∃ r ∈ rs, r.tag = .enum ∧ h.fullName i = r.name := by
  obtain ⟨r, hzip, htop⟩ := hf.exists_zip (List.mem_filter.1 hi).1
  obtain ⟨hr, ht⟩ := List.mem_filter.1 (List.of_mem_zip hzip).1
  exact ⟨r, hr, of_decide_eq_true ht, htop.fullName⟩

/-- The qualifiers of enums are none of the names that settings refer to. -/
theorem Unmentioned.qualifier_not_mem (hu : Unmentioned s.supportNames rs)
    (hf : d.hierarchy.EnumsFrom rs) (hi : i ∈ d.hierarchy.rootEnums) {q : String}
    (hq : (splitLast (d.hierarchy.fullName i)).1 = some q) : q ∉ s.supportNames := by
  obtain ⟨r, hr, ht, hname⟩ := hf.exists_record hi
  exact hu.enums r hr ht q (hname ▸ hq)

/-- Nesting enums misses nothing but qualifiers of enums. -/
theorem qualifier_of_nestEnums (ht : ¬ t.Misses) (hs : d.Sound)
    (hd : nestEnums t d = .error (.typeNotFound name onBehalfOf) d') :
    ∃ i ∈ d.hierarchy.rootEnums, (splitLast (d.hierarchy.fullName i)).1 = some name := by
  obtain hh | ⟨_, _, hh, hplans⟩ := bind_error.1 hd
  · cases hh
  obtain ⟨rfl, rfl⟩ := hierarchy_ok.1 hh
  obtain hplan | ⟨m, d₁, -, hmoves⟩ := bind_error.1 hplans
  · obtain ⟨i, hi, q, hq, -, he⟩ := planMoves_error (nodup_rootEnums hs) (fun _ _ => rfl) hplan
    obtain ⟨rfl, -⟩ := Failure.typeNotFound.inj he
    exact ⟨i, hi, hq⟩
  · have hrest : Leads False (do
        let moved ← onHierarchy m.apply
        moved.forM (renameEnum t)) :=
      leads_bind leads_apply fun _ => leads_forM fun _ => leads_renameEnum ht
    exact (hrest.finds hmoves).elim

namespace Ready

variable (hr : Ready s rs d)
include hr

theorem nestEnums (hc : s.Conventional) (hu : Unmentioned s.supportNames rs)
    (hf : d.hierarchy.EnumsFrom rs) (hd : Build.nestEnums t d = .ok () d') : Ready s rs d' := by
  obtain ⟨-, h₁, hmade, hrename⟩ := nestEnums_moves hr.sound hd
  have hsame := Moves.sameElements_makeAll hmade
  have hmoved : Ready s rs { d with hierarchy := h₁ } := by
    refine hr.edit (orderly_of_enumMoves hr.sound hmade) (Nat.le_of_eq hsame.size.symm)
      (fun _ _ => by rw [hsame.kind]) (fun j hj => ⟨hsame.kind ▸ hj, congrFun hsame.fullName j⟩)
        fun j n hn => ?_
    rw [hsame.element] at hn
    exact .inl hn
  -- The enums ahead have the names of their records, which are none of the default base types.
  have hnames : ∀ i ∈ (nestMoves ownsEnums d d.hierarchy.rootEnums).map Prod.fst,
      ¬ (h₁.fullName i = s.rootType ∨ h₁.fullName i = s.baseInterface) := by
    intro i hi hname
    rw [hsame.fullName] at hname
    obtain ⟨q, hmem, hq⟩ := hc.qualifier_mem hname
    exact hu.qualifier_not_mem hf (mem_keys_nestMoves.1 hi).1 hq hmem
  refine (forM_ok (I := fun is d => Ready s rs d ∧ Renamable is d.hierarchy ∧ ∀ i ∈ is,
    ¬ (d.hierarchy.fullName i = s.rootType ∨ d.hierarchy.fullName i = s.baseInterface)) ?_
      ⟨hmoved, renamable_of_enumMoves hr.sound hmade, hnames⟩ hrename).1
  rintro i is d d' ⟨hr, hrenamable, hnames⟩ hi
  have hatt := hrenamable.attached List.mem_cons_self
  have hrenamed := renamedOver_of_rename (Hierarchy.lt_size_of_owner_ne hatt) hi
  obtain ⟨hroot, hbase⟩ := not_or.1 (hnames i List.mem_cons_self)
  refine ⟨hr.rename hc.colonless hatt (hrenamable.enum i List.mem_cons_self) hroot hbase hi,
    hrenamable.tail hrenamed.toSamePlaces, fun j hj => ?_⟩
  have hne : j ≠ i := fun h => (List.nodup_cons.1 hrenamable.nodup).1 (h ▸ hj)
  rw [hrenamed.kept (by simpa using hne)]
  exact hnames j (List.mem_cons_of_mem _ hj)

/-! ### The passes over interfaces and base types -/

theorem makeInvokers (hs : p.settings = s) (hc : s.Conventional)
    (hd : Build.makeInvokers p d = .ok () d') : Ready s rs d' := by
  obtain ⟨_, _, hh, hmake⟩ := bind_ok.1 hd
  obtain ⟨rfl, rfl⟩ := hierarchy_ok.1 hh
  refine (forM_ok (I := fun is d => Ready s rs d ∧ Callable is d.hierarchy) ?_
    ⟨hr, callable_of_lacking hr.sound.orderly⟩ hmake).1
  rintro i is d d' ⟨hr, hcall⟩ hi
  have hk := (hcall i List.mem_cons_self).2
  exact ⟨hr.makeInvoker hc.colonless hs hk hi,
    hcall.tail (invokersMade_of_make hr.sound hk hi).2⟩

theorem misspelt_of_resolveBaseTypes
    (hd : resolveBaseTypes s d = .error (.typeNotFound name onBehalfOf) d')
    (hn : name ∈ s.supportNames) : Misspelt s rs name := by
  obtain hh | ⟨_, _, hh, hrest⟩ := bind_error.1 hd
  · cases hh
  obtain ⟨rfl, rfl⟩ := hierarchy_ok.1 hh
  obtain hbases | ⟨_, _, -, hremove⟩ := bind_error.1 hrest
  · obtain ⟨i, -, d₁, hr₁, hi⟩ := forM_error (I := fun _ d => Ready s rs d)
      (fun _ _ _ _ hr hi => hr.resolveBases hi) hr hbases
    exact hr₁.misspelt hi hn
  · cases hremove

end Ready

/-! ### The whole build -/

/-- Taking records in looks no names up. -/
theorem finds_of_ingest {policy : ClashPolicy} :
    ingest rs { registry := .empty policy } ≠ .error (.typeNotFound name onBehalfOf) d' := by
  intro hd
  have ho := outcome_blank rs policy
  rw [hd] at ho
  cases ho with
  | refused ht he =>
    obtain ⟨r, hr⟩ := addNative_error he
    obtain ⟨-, hf⟩ | ⟨_, -, hf⟩ := Registry.insert_error hr <;> cases hf

/-- A build that nobody makes look for supporting types misses one only where it is misspelt. -/
theorem misspelt_of_passes (ht : ¬ p.translator.Misses) (hc : p.settings.Conventional)
    (hu : Unmentioned p.settings.supportNames rs)
    (hd : p.passes rs p.blank = .error (.typeNotFound name onBehalfOf) d')
    (hn : name ∈ p.settings.supportNames) : Misspelt p.settings rs name := by
  obtain hingest | ⟨_, d₁, hingest, hd⟩ := bind_error.1 hd
  · exact absurd hingest finds_of_ingest
  have hk₁ : Stocked p.settings rs d₁ := stocked_of_ingest hu hingest
  obtain hbootstrap | ⟨_, d₂, hbootstrap, hd⟩ := bind_error.1 hd
  · exact ((leads_bootstrap : Leads False _).finds hbootstrap).elim
  obtain ⟨hk₂, hruntime, hbase, hroot⟩ := provided_of_bootstrap hu hc.makesRoot hingest hbootstrap
  have hs₂ := hk₂.nestable.sound
  obtain hnest | ⟨_, d₃, hnest, hd⟩ := bind_error.1 hd
  · exact hk₂.misspelt_of_nestTypes hc hu hruntime hnest hn
  obtain ⟨-, h₃, rfl, htypes⟩ := nestTypes_ok hs₂ hk₂.nestable.noInvoker hnest
  have hr₃ := (hk₂.ready hc.colonless hroot hbase).nestTypes htypes
  obtain hassign | ⟨_, d₄, hassign, hd⟩ := bind_error.1 hd
  · exact ((leads_assignManagedNames ht).finds hassign).elim
  obtain ⟨_, _, hh, hnames⟩ := bind_ok.1 hassign
  obtain ⟨rfl, rfl⟩ := hierarchy_ok.1 hh
  have hr₄ := hr₃.forM_assign hc.colonless (fun _ => hr₃.sound.orderly.lt_size_of_mem_walkAll) hnames
  have henums : d₄.hierarchy.EnumsFrom rs := by
    have hblank : p.blank.hierarchy.EnumsFrom [] := .nil
    have hingested : d₁.hierarchy.EnumsFrom rs :=
      enumsFrom_of_ingest (fun _ hx => hx) sound_blank hblank hingest
    have hsupported : d₂.hierarchy.EnumsFrom rs :=
      enumsFrom_of_support hingested (bootstrap_ok hk₁.nestable.sound hbootstrap)
    have hsame := (namedOver_of_forM hnames).toSameNative
    exact (hsupported.typesNested hs₂ htypes).kept hsame.keepsTop hsame.enums
  obtain hnestEnums | ⟨_, d₅, hnestEnums, hd⟩ := bind_error.1 hd
  · obtain ⟨i, hi, hq⟩ := qualifier_of_nestEnums ht hr₄.sound hnestEnums
    exact absurd hn (hu.qualifier_not_mem henums hi hq)
  have hr₅ := hr₄.nestEnums hc hu henums hnestEnums
  obtain hinvokers | ⟨_, d₆, hinvokers, hd⟩ := bind_error.1 hd
  · exact ((leads_makeInvokers ht).finds hinvokers).elim
  have hr₆ := hr₅.makeInvokers rfl hc hinvokers
  obtain hresolve | ⟨_, d₇, -, hmark⟩ := bind_error.1 hd
  · exact hr₆.misspelt_of_resolveBaseTypes hresolve hn
  · exact ((leads_mark : Leads False _).finds hmark).elim

/-- The failure of a build is that of its passes, unless there is nothing to build. -/
theorem build_error {failure : Failure} (hb : (p.build rs).result = .error failure) :
    failure = .emptyInput ∨ ∃ d, p.passes rs p.blank = .error failure d := by
  unfold Plan.build at hb
  split at hb
  · cases hb
    exact .inl rfl
  · split at hb
    next => cases hb
    next failure' d hd =>
      cases hb
      exact .inr ⟨d, hd⟩

/-- Where no record refers to supporting types, and what concerns them is set as by default, a build
misses one of their names only if a record misspells it. That a type is not found is nothing that the
translator says. -/
theorem misspelt_of_build (ht : ¬ p.translator.Misses) (hs : p.settings.DefaultSupport)
    (hu : Unmentioned p.settings.supportNames rs)
    (hb : (p.build rs).result = .error (.typeNotFound name onBehalfOf))
    (hn : name ∈ p.settings.supportNames) : Misspelt p.settings rs name := by
  obtain hempty | ⟨d, hd⟩ := build_error hb
  · cases hempty
  · exact misspelt_of_passes ht hs.conventional hu hd hn

/-- A namespace with the name of that for supporting types, in lower case. -/
def lowerCaseRecords : List Record := [.plain (.ns {}) "android.runtime" []]

theorem unmentioned_lowerCase : Unmentioned samplePlan.settings.supportNames lowerCaseRecords where
  bases head hmem n hn := by
    simp [lowerCaseRecords, Record.headsOf, Record.heads, Record.plain] at hmem
    subst hmem
    cases hn
  types r hr _ c hc := by
    obtain rfl := List.mem_singleton.1 hr
    cases hc
  enums r hr ht := by
    obtain rfl := List.mem_singleton.1 hr
    cases ht

/-- The build takes the namespace in lower case for the one it needs, and then misses the latter. -/
theorem build_lowerCase : (samplePlan.build lowerCaseRecords).result =
    .error (.typeNotFound "Android.Runtime" (some "Android.Runtime.IJavaObject")) :=
  build_fails _ _ _ (by decide +kernel)

theorem misspelt_of_lowerCase : ¬ samplePlan.translator.Misses ∧
    samplePlan.settings.DefaultSupport ∧ Unmentioned samplePlan.settings.supportNames lowerCaseRecords ∧
      (samplePlan.build lowerCaseRecords).result =
        .error (.typeNotFound "Android.Runtime" (some "Android.Runtime.IJavaObject")) ∧
        "Android.Runtime" ∈ samplePlan.settings.supportNames ∧
          Misspelt samplePlan.settings lowerCaseRecords "Android.Runtime" := by
  have ht : ¬ samplePlan.translator.Misses := isBuiltIn_samplePlan.onlyInvalid.not_misses
  have hs : samplePlan.settings.DefaultSupport := ⟨rfl, rfl, rfl, rfl⟩
  have hn : "Android.Runtime" ∈ samplePlan.settings.supportNames := List.mem_cons_self
  exact ⟨ht, hs, unmentioned_lowerCase, build_lowerCase, hn,
    misspelt_of_build ht hs unmentioned_lowerCase build_lowerCase hn⟩

/-- Not to refer to supporting types does not keep a build from missing them. -/
theorem missing_despite_unmentioned : ¬ ∀ (rs : List Record) (name : String)
    (onBehalfOf : Option String), Unmentioned samplePlan.settings.supportNames rs →
      name ∈ samplePlan.settings.supportNames →
        (samplePlan.build rs).result ≠ .error (.typeNotFound name onBehalfOf) := fun hall =>
  hall lowerCaseRecords "Android.Runtime" _ unmentioned_lowerCase List.mem_cons_self build_lowerCase

end BindingTree

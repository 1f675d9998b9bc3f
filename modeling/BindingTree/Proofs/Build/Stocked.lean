import BindingTree.Proofs.Build.Gathered

/-! What stands in the index once supporting types are there. Every type and namespace is entered
under its full name, each comes from a record or supports generated code, and the names that the
settings refer to are taken, unless a record spells one of them in another way than the settings do
and so passes for what they ask for. -/

namespace BindingTree

open Build Naming
open Relation (ReflTransGen)

/-- The names that settings refer to: the namespace for supporting types, the base of interfaces,
the root type and the namespace that it belongs to. -/
def Settings.supportNames (s : Settings) : List String :=
  [s.runtimeNamespace, s.baseInterface, s.rootType] ++ (splitLast s.rootType).1.toList

theorem Settings.rootType_mem_supportNames (s : Settings) : s.rootType ∈ s.supportNames := by
  simp [supportNames]

theorem Settings.baseInterface_mem_supportNames (s : Settings) :
    s.baseInterface ∈ s.supportNames := by
  simp [supportNames]

/-- The names of base types that a record gives. -/
def Record.Head.mentions (head : Record.Head) : List String :=
  match head.content with
  | .cls i => (i.base.bind baseName?).toList
  | .implements _ => (baseName? head.name).toList
  | _ => []

/-- No record refers to any of some names, be it as a base type, by the dots in the name of a type,
or by the qualifier of an enum. -/
structure Unmentioned (names : List String) (rs : List Record) : Prop where
  bases : ∀ head ∈ Record.headsOf rs, ∀ n ∈ head.mentions, n ∉ names
  types : ∀ r ∈ rs, r.tag = .ns → ∀ c ∈ r.children, ∀ l, c.head.listingBelow? r.name = some l →
    ∀ q, (splitLast l.fullName).1 = some q → q = r.name ∨ q ∉ names
  enums : ∀ r ∈ rs, r.tag = .enum → ∀ q, (splitLast r.name).1 = some q → q ∉ names

/-- The base types that are still to be found for a type. -/
def Element.wanted (e : Element) : List String :=
  match e.facts? with
  | some f => if f.basesFixed then [] else f.baseNames
  | none => []

/-- Where a type or a namespace comes from: a record, or what supports generated code. -/
inductive Known (s : Settings) (rs : List Record) (d : Draft) (i : ElementId) : Prop where
  | record (hl : d.hierarchy.listing i ∈ rs.flatMap Record.listings)
  | ns (hk : d.hierarchy.kind i = .ns)
  | base (hk : d.hierarchy.kind i = .iface) (hn : d.hierarchy.fullName i = s.baseInterface)
  | root (hk : d.hierarchy.kind i = .cls) (hn : d.hierarchy.fullName i = s.rootType)
    (hq : ∀ q, (splitLast s.rootType).1 = some q → d.registry.index.Taken q)

/-- Drafts from the end of the records to the end of supporting types. -/
structure Stocked (s : Settings) (rs : List Record) (d : Draft) : Prop where
  nestable : Nestable d
  entered : ∀ {i : ElementId}, i ∈ d.hierarchy.indexed →
    d.registry.index.Entered (d.hierarchy.kind i) (d.hierarchy.fullName i)
  listed : ∀ l ∈ rs.flatMap Record.listings, d.registry.index.Taken l.fullName
  known : ∀ i ∈ d.hierarchy.indexed, Known s rs d i
  wanted : ∀ i, ∀ n ∈ (d.hierarchy.element i).wanted, n ∉ s.supportNames

variable {s : Settings} {rs : List Record} {heads : List Record.Head} {d d' : Draft}
  {h h' : Hierarchy} {r : Registry} {i ns : ElementId} {policy : ClashPolicy} {name : String}

/-! ### After the records -/

theorem Element.wanted_addBaseName (e : Element) {n m : String}
    (hn : n ∈ (e.withFacts (addBaseName m)).wanted) : n ∈ e.wanted ∨ n = m := by
  unfold Element.withFacts Element.wanted Element.facts? at *
  cases hp : e.payload with
  | type k f =>
    simp only [hp] at hn ⊢
    unfold addBaseName at hn
    split at hn
    · exact .inl hn
    · dsimp only at hn
      split at hn
      · cases hn
      next hfixed =>
        rw [if_neg hfixed]
        simpa using hn
  | _ => simp [hp] at hn

theorem wanted_ofHead {head : Record.Head} {payload : Payload} {full : String}
    (hp : payload? head.content = some payload) {n : String}
    (hn : n ∈ (ofHead head payload name full).wanted) : n ∈ head.mentions := by
  unfold Record.Head.mentions
  cases hc : head.content <;> rw [hc] at hp <;> cases hp <;>
    simp [Element.wanted, Element.facts?, ofHead] at hn ⊢
  exact hn

theorem wanted_of_intake (hst : Intake heads d d')
    (hm : ∀ head ∈ heads, ∀ n ∈ head.mentions, n ∉ s.supportNames)
    (hw : ∀ i, ∀ n ∈ (d.hierarchy.element i).wanted, n ∉ s.supportNames) :
    ∀ i, ∀ n ∈ (d'.hierarchy.element i).wanted, n ∉ s.supportNames := by
  cases hst with
  | ns hmem hc =>
    exact Hierarchy.Fresh.putNamespace.forall_element
      (P := fun e => ∀ n ∈ e.wanted, n ∉ s.supportNames)
      (fun n hn => hm _ hmem n (wanted_ofHead (by rw [hc]; rfl) hn)) hw
  | enum hmem hc hdot =>
    refine Hierarchy.Fresh.putEnum.forall_element
      (P := fun e => ∀ n ∈ e.wanted, n ∉ s.supportNames) (fun n hn => ?_) hw
    exact absurd hn (by simp [Element.wanted, Element.facts?, enumOf, ofHead])
  | below hst =>
    cases hst with
    | below hmem hp ha hc =>
      exact Hierarchy.Fresh.putBelow.forall_element
        (P := fun e => ∀ n ∈ e.wanted, n ∉ s.supportNames)
        (fun n hn => hm _ hmem n (wanted_ofHead hc hn)) hw
    | @inherit head q m hmem hc hname =>
      refine Hierarchy.forall_element_modify (P := fun e => ∀ n ∈ e.wanted, n ∉ s.supportNames)
        (fun e he n hn => ?_) hw
      rcases e.wanted_addBaseName hn with hold | rfl
      · exact he n hold
      · refine hm head hmem n ?_
        unfold Record.Head.mentions
        cases hcontent : head.content <;> rw [hcontent] at hc <;> cases hc
        simp [hname]
    | enter hi ht hr => exact hw
    | notice => exact hw

theorem stocked_of_ingest (hu : Unmentioned s.supportNames rs)
    (hd : ingest rs { registry := .empty policy } = .ok () d) : Stocked s rs d := by
  have ht := taking_of_ingest hd
  have hl : d.hierarchy.listings = rs.flatMap Record.listings := by
    rw [← ht.listings, List.append_nil]
  refine ⟨nestable_of_ingest hd, fun hi => ht.entered hi List.not_mem_nil, fun l hmem => ?_,
    fun i hi => .record (hl ▸ List.mem_map_of_mem hi), ?_⟩
  · rw [← hl] at hmem
    obtain ⟨i, hi, rfl⟩ := List.mem_map.1 hmem
    exact (ht.entered hi List.not_mem_nil).taken
  · have hsteps : ReflTransGen (Intake (Record.headsOf rs)) { registry := .empty policy } d :=
      ingest_ok (fun _ hx => hx) hd
    have hsound : ({ registry := .empty policy } : Draft).Sound := ⟨.nil, .empty⟩
    refine (hsound.induction
      (I := fun d => ∀ i, ∀ n ∈ (d.hierarchy.element i).wanted, n ∉ s.supportNames)
      Intake.sound (fun hst _ => wanted_of_intake hst hu.bases) hsteps ?_).2
    intro i n hn
    cases hn

/-! ### Supporting types -/

theorem Known.mono {ids : List ElementId} (hk : Known s rs d i) (hg : Grown ids d d')
    (ho : d.hierarchy.Grounded) (hi : i < d.hierarchy.size)
    (ht : ∀ q, d.registry.index.Taken q → d'.registry.index.Taken q) : Known s rs d' i := by
  cases hk with
  | record hl => exact .record (hg.listing ho hi ▸ hl)
  | ns hk => exact .ns ((hg.kind hi).trans hk)
  | base hk hn => exact .base ((hg.kind hi).trans hk) ((hg.fullName hi).trans hn)
  | root hk hn hq =>
    exact .root ((hg.kind hi).trans hk) ((hg.fullName hi).trans hn) fun q h => ht q (hq q h)

/-- Every type and namespace is entered under its full name. -/
def Draft.AllEntered (d : Draft) : Prop := ∀ ⦃i : ElementId⦄, i ∈ d.hierarchy.indexed →
  d.registry.index.Entered (d.hierarchy.kind i) (d.hierarchy.fullName i)

theorem Draft.AllEntered.fresh {o : Owner} {e : Element} (he : d.AllEntered) (hs : d.Sound)
    (hf : d.hierarchy.Fresh h' o e) (hindexed : e.kind.isIndexed = true)
    (hr : Registry.addNative d.hierarchy.size e d.registry = .ok () r) :
    Draft.AllEntered ⟨h', r⟩ := by
  have hsame : ∀ ⦃key : String⦄ ⦃x : Entry⦄, d.registry.index.native.get? key = some x →
      x.id = d.hierarchy.size → x.kind = e.kind := fun key x hx hid =>
    absurd (hs.points (t := .native) hx).1 (by simp [hid])
  intro i hi
  change i ∈ h'.indexed at hi
  rw [hf.indexed, if_pos hindexed] at hi
  rcases List.mem_append.1 hi with hold | hnew
  · have hlt := (Hierarchy.mem_indexed.1 hold).1
    dsimp only
    rw [hf.kind_of_lt hlt, hf.fullName_of_lt hlt]
    exact (he hold).insert hsame hr
  · obtain rfl := List.mem_singleton.1 hnew
    dsimp only
    rw [hf.kind_new, Hierarchy.fullName, hf.element_new]
    exact Index.entered_of_insert hsame hr

theorem allEntered_of_support (hst : Support s d d') (hs : d.Sound) (he : d.AllEntered) :
    d'.AllEntered := by
  cases hst with
  | ns hname hr => exact he.fresh hs .putNamespace rfl hr
  | @give j hne =>
    have hsame : d.hierarchy.SameNative (d.hierarchy.modify j (givenAs s.runtimeNamespace)) :=
      .modify fun _ => rfl
    intro i hi
    rw [Hierarchy.mem_indexed, hsame.size, hsame.kind] at hi
    dsimp only
    rw [hsame.kind, hsame.fullName]
    exact he (Hierarchy.mem_indexed.2 hi)
  | type hns hkind hr =>
    refine he.fresh hs .putBelow ?_ hr
    rcases hkind with ⟨rfl, -⟩ | ⟨rfl, -, -⟩ <;> rfl

/-- Once supporting types are there, types and namespaces are entered. -/
theorem Enclosed.allEntered_supported {p : Plan} {d₁ d₂ d₃ d₄ d₅ : Draft}
    (he : Enclosed p rs d₁ d₂ d₃ d₄ d₅) : d₂.AllEntered :=
  (he.sound_ingested.induction Support.sound (fun hst hs => allEntered_of_support hst hs) he.support
    fun _ hi => (taking_of_ingest he.ingest).entered hi List.not_mem_nil).2

/-- A fresh type or namespace is entered. -/
theorem Stocked.fresh {o : Owner} {e : Element} (hk : Stocked s rs d)
    (hf : d.hierarchy.Fresh h' o e) (hn : Nestable ⟨h', r⟩) (hindexed : e.kind.isIndexed = true)
    (hr : Registry.addNative d.hierarchy.size e d.registry = .ok () r)
    (hknown : Known s rs ⟨h', r⟩ d.hierarchy.size) (hw : e.wanted = []) :
    Stocked s rs ⟨h', r⟩ := by
  have hsound := hk.nestable.sound
  have hentered : d.AllEntered := fun _ => hk.entered
  have hg : Grown [d.hierarchy.size] d ⟨h', d.registry⟩ := by
    have hgrown := Grown.of_fresh hf
    rwa [if_pos hindexed] at hgrown
  have htaken : ∀ q, d.registry.index.Taken q → r.index.Taken q := fun q hq => hq.insert hr
  refine ⟨hn, fun {i} hi => hentered.fresh hsound hf hindexed hr hi,
    fun l hl => htaken _ (hk.listed l hl), fun i hi => ?_, ?_⟩
  · change i ∈ h'.indexed at hi
    rw [hg.indexed] at hi
    rcases List.mem_append.1 hi with hold | hnew
    · have hlt := (Hierarchy.mem_indexed.1 hold).1
      have hkept := (hk.known i hold).mono hg hsound.orderly.toGrounded hlt fun _ hq => hq
      cases hkept with
      | record hl => exact .record hl
      | ns hk => exact .ns hk
      | base hk hn => exact .base hk hn
      | root hk hn hq => exact .root hk hn fun q h => htaken q (hq q h)
    · obtain rfl := List.mem_singleton.1 hnew
      exact hknown
  · exact hf.forall_element (P := fun e => ∀ n ∈ e.wanted, n ∉ s.supportNames)
      (fun n hn => by rw [hw] at hn; cases hn) hk.wanted

theorem stocked_of_support (hst : Support s d d') (hk : Stocked s rs d) : Stocked s rs d' := by
  have hn := nestable_of_support (.single hst) hk.nestable
  have hentered := allEntered_of_support hst hk.nestable.sound fun _ => hk.entered
  cases hst with
  | ns hname hr =>
    exact hk.fresh .putNamespace hn rfl hr (.ns Hierarchy.Fresh.putNamespace.kind_new) rfl
  | @give j hne =>
    have hsame : d.hierarchy.SameNative (d.hierarchy.modify j (givenAs s.runtimeNamespace)) :=
      .modify fun _ => rfl
    have hg : Grown [] d { d with hierarchy := d.hierarchy.modify j (givenAs s.runtimeNamespace) } :=
      .of_same hsame (List.Subset.refl _)
    have hindexed := hg.indexed
    rw [List.append_nil] at hindexed
    refine ⟨hn, fun {i} hi => hentered hi, hk.listed, fun i hi => ?_, fun i => ?_⟩
    · rw [hindexed] at hi
      exact (hk.known i hi).mono hg hk.nestable.sound.orderly.toGrounded
        (Hierarchy.mem_indexed.1 hi).1 fun _ hq => hq
    · have hwanted : ((d.hierarchy.modify j (givenAs s.runtimeNamespace)).element i).wanted =
          (d.hierarchy.element i).wanted := Hierarchy.congr_element_modify Element.wanted fun _ => rfl
      dsimp only
      rw [hwanted]
      exact hk.wanted i
  | @type ns kind fullName useGlobal r hns hkind hr =>
    have hnew : Hierarchy.Fresh d.hierarchy _ (.element ns) (supportType kind fullName useGlobal) :=
      .putBelow
    have hname : (d.hierarchy.putBelow ns (supportType kind fullName useGlobal)).fullName
        d.hierarchy.size = fullName := by
      rw [Hierarchy.fullName, hnew.element_new]
      rfl
    rcases hkind with ⟨rfl, rfl⟩ | ⟨rfl, rfl, hplace⟩
    · exact hk.fresh hnew hn rfl hr (.base hnew.kind_new hname) rfl
    · refine hk.fresh hnew hn rfl hr (.root hnew.kind_new hname fun q hq => ?_) rfl
      rcases hplace with hqualifier | ⟨hnone, -⟩
      · rw [hq] at hqualifier
        cases hqualifier
        have hmem : ns ∈ d.hierarchy.indexed := by
          refine Hierarchy.mem_indexed.2
            ⟨hk.nestable.sound.orderly.lt_size_of_mem_namespaces hns, ?_⟩
          rw [(hk.nestable.sound.orderly.mem_namespaces.1 hns).1]
          rfl
        exact (hk.entered hmem).taken.insert hr
      · rw [hnone] at hq
        cases hq

theorem stocked_of_supports (hst : ReflTransGen (Support s) d d') (hk : Stocked s rs d) :
    Stocked s rs d' := by
  induction hst with
  | refl => exact hk
  | tail _ hst ih => exact stocked_of_support hst ih

theorem taken_of_support (hst : Support s d d') (ht : d.registry.index.Taken name) :
    d'.registry.index.Taken name := by
  cases hst with
  | ns hname hr => exact ht.insert hr
  | give hne => exact ht
  | type hns hk hr => exact ht.insert hr

theorem taken_of_supports (hst : ReflTransGen (Support s) d d')
    (ht : d.registry.index.Taken name) : d'.registry.index.Taken name := by
  induction hst with
  | refl => exact ht
  | tail _ hst ih => exact taken_of_support hst ih

/-! ### Names that the settings refer to -/

/-- No record has a name, but one spells it in another way than the settings do and passes for what
they ask for: a namespace or an interface of it in another case, or a class whose name is the key for
a class of that name. -/
inductive Misspelt (s : Settings) (rs : List Record) : String → Prop where
  | runtime {r : Record} (hr : r ∈ rs) (ht : r.tag = .ns)
    (hsame : Hierarchy.sameIgnoringCase r.name s.runtimeNamespace = true)
    (hnone : ∀ l ∈ rs.flatMap Record.listings, l.fullName ≠ s.runtimeNamespace) :
    Misspelt s rs s.runtimeNamespace
  | base {r c : Record} {l : Listing} (hr : r ∈ rs) (ht : r.tag = .ns)
    (hsame : Hierarchy.sameIgnoringCase r.name s.runtimeNamespace = true) (hc : c ∈ r.children)
    (hl : c.head.listingBelow? r.name = some l) (hk : l.kind = .iface)
    (hface : Hierarchy.sameIgnoringCase l.fullName s.baseInterface = true)
    (hnone : ∀ l ∈ rs.flatMap Record.listings, l.fullName ≠ s.baseInterface) :
    Misspelt s rs s.baseInterface
  | root {l : Listing} (hl : l ∈ rs.flatMap Record.listings) (hk : l.kind = .cls)
    (hname : l.fullName = Kind.cls.keyed s.rootType)
    (hnone : ∀ l ∈ rs.flatMap Record.listings, l.fullName ≠ s.rootType) :
    Misspelt s rs s.rootType

/-- Whether a name is taken, or misspelt by a record. -/
def Provided (s : Settings) (rs : List Record) (d : Draft) (name : String) : Prop :=
  Misspelt s rs name ∨ d.registry.index.Taken name

/-- A listing is of a record at the top, or of one below a namespace there. -/
theorem mem_listings {l : Listing} (hl : l ∈ rs.flatMap Record.listings) :
    (∃ r ∈ rs, r.tag = .ns ∧ (l = ⟨.ns, r.name, r.name, none⟩ ∨
      ∃ c ∈ r.children, c.head.listingBelow? r.name = some l)) ∨
    ∃ r ∈ rs, r.tag = .enum ∧ l = ⟨.enum, (splitLast r.name).2, r.name, none⟩ := by
  obtain ⟨r, hr, hl⟩ := List.mem_flatMap.1 hl
  unfold Record.listings at hl
  cases ht : r.tag <;> rw [ht] at hl <;> dsimp only at hl
  case ns =>
    rcases List.mem_cons.1 hl with rfl | hl
    · exact .inl ⟨r, hr, ht, .inl rfl⟩
    · obtain ⟨c, hc, hcl⟩ := List.mem_filterMap.1 hl
      exact .inl ⟨r, hr, ht, .inr ⟨c, hc, hcl⟩⟩
  case enum => exact .inr ⟨r, hr, ht, List.mem_singleton.1 hl⟩
  all_goals cases hl

theorem listingBelow?_some {head : Record.Head} {ns : String} {l : Listing}
    (hl : head.listingBelow? ns = some l) : (l.kind = .cls ∨ l.kind = .iface) ∧ l.site = some ns := by
  unfold Record.Head.listingBelow? at hl
  dsimp only at hl
  split at hl <;> cases hl
  · exact ⟨.inl rfl, rfl⟩
  · exact ⟨.inr rfl, rfl⟩

/-- A name that no record has, or that is taken. -/
theorem Stocked.taken_or_none (hk : Stocked s rs d) (name : String) :
    d.registry.index.Taken name ∨ ∀ l ∈ rs.flatMap Record.listings, l.fullName ≠ name := by
  by_cases hsome : ∃ l ∈ rs.flatMap Record.listings, l.fullName = name
  · obtain ⟨l, hl, rfl⟩ := hsome
    exact .inl (hk.listed l hl)
  · exact .inr fun l hl he => hsome ⟨l, hl, he⟩

theorem sameIgnoringCase_refl (a : String) : Hierarchy.sameIgnoringCase a a = true :=
  decide_eq_true rfl

/-- The namespace for supporting types is called as the settings say, up to case. -/
theorem provided_of_runtimeNamespace (hk : Stocked s rs d)
    (hlisted : ∀ i ∈ d.hierarchy.indexed, d.hierarchy.listing i ∈ rs.flatMap Record.listings)
    (hunnamed : ∀ i, (d.hierarchy.element i).fullManagedName = none)
    (hd : runtimeNamespace s.runtimeNamespace d = .ok ns d') :
    Provided s rs d' s.runtimeNamespace ∧
      Hierarchy.sameIgnoringCase (d'.hierarchy.fullName ns) s.runtimeNamespace = true := by
  obtain ⟨_, _, hh, hd⟩ := bind_ok.1 hd
  obtain ⟨rfl, rfl⟩ := hierarchy_ok.1 hh
  cases hfound : d.hierarchy.findNamespaceIgnoringCase? s.runtimeNamespace with
  | some found =>
    simp only [hfound] at hd
    obtain ⟨rfl, rfl⟩ := pure_ok.1 hd
    have hsame := List.find?_some hfound
    simp only [hunnamed found, Option.any_none, Bool.or_false] at hsame
    have horderly := hk.nestable.sound.orderly
    have hns := List.mem_of_find?_eq_some hfound
    have hkind := (horderly.mem_namespaces.1 hns).1
    have hl := hlisted found (Hierarchy.mem_indexed.2
      ⟨horderly.lt_size_of_mem_namespaces hns, by rw [hkind]; rfl⟩)
    refine ⟨?_, hsame⟩
    rcases hk.taken_or_none s.runtimeNamespace with htaken | hnone
    · exact .inr htaken
    · rcases mem_listings hl with ⟨r, hr, ht, he | ⟨c, hc, hcl⟩⟩ | ⟨r, hr, ht, he⟩
      · have hname : d.hierarchy.fullName found = r.name := congrArg Listing.fullName he
        exact .inl (.runtime hr ht (hname ▸ hsame) hnone)
      · rcases (listingBelow?_some hcl).1 with hkc | hkc <;> cases hkind.symm.trans hkc
      · cases hkind.symm.trans (congrArg Listing.kind he)
  | none =>
    simp only [hfound] at hd
    obtain ⟨id, d₁, hmake, hd⟩ := bind_ok.1 hd
    obtain ⟨rfl, r, hr, rfl⟩ := makeNamespace_ok hmake
    obtain ⟨_, _, hedit, hd⟩ := bind_ok.1 hd
    obtain rfl := editElement_ok.1 hedit
    obtain ⟨rfl, rfl⟩ := pure_ok.1 hd
    refine ⟨.inr (Index.taken_of_insert hr), ?_⟩
    have hname : ((d.hierarchy.putNamespace (supportNamespace s.runtimeNamespace)).modify
        d.hierarchy.size (givenAs s.runtimeNamespace)).fullName d.hierarchy.size =
          s.runtimeNamespace := by
      have hkept : ((d.hierarchy.putNamespace (supportNamespace s.runtimeNamespace)).modify
          d.hierarchy.size (givenAs s.runtimeNamespace)).fullName d.hierarchy.size =
            (d.hierarchy.putNamespace (supportNamespace s.runtimeNamespace)).fullName
              d.hierarchy.size := Hierarchy.congr_element_modify Element.fullName fun _ => rfl
      rw [hkept, Hierarchy.fullName, Hierarchy.Fresh.putNamespace.element_new]
      rfl
    exact (congrArg (Hierarchy.sameIgnoringCase · s.runtimeNamespace) hname).trans
      (sameIgnoringCase_refl _)

/-- A namespace that has the base of interfaces, up to case. -/
theorem provided_of_hasInterface (hk : Stocked s rs d)
    (hsame : Hierarchy.sameIgnoringCase (d.hierarchy.fullName ns) s.runtimeNamespace = true)
    (hface : hasInterface d.hierarchy ns s.baseInterface = true) :
    Provided s rs d s.baseInterface := by
  rw [hasInterface, List.any_eq_true] at hface
  obtain ⟨i, hmem, hi⟩ := hface
  rw [Bool.and_eq_true, decide_eq_true_eq] at hi
  obtain ⟨hkind, hname⟩ := hi
  have howner := hk.nestable.sound.orderly.mem_members.1 hmem
  have hlt : i < d.hierarchy.size := Hierarchy.lt_size_of_owner_ne (by simp [howner])
  have hindexed := Hierarchy.mem_indexed.2 ⟨hlt, by rw [hkind]; rfl⟩
  rcases hk.taken_or_none s.baseInterface with htaken | hnone
  · exact .inr htaken
  · cases hk.known i hindexed with
    | ns hns => cases hkind.symm.trans hns
    | base _ hn => exact .inr (hn ▸ (hk.entered hindexed).taken)
    | root hcls => cases hkind.symm.trans hcls
    | record hl =>
      rcases mem_listings hl with ⟨r, hr, ht, he | ⟨c, hc, hcl⟩⟩ | ⟨r, hr, ht, he⟩
      · cases hkind.symm.trans (congrArg Listing.kind he)
      · have hsite : (d.hierarchy.owner i).element?.map d.hierarchy.fullName = some r.name :=
          (listingBelow?_some hcl).2
        rw [howner] at hsite
        have hns : d.hierarchy.fullName ns = r.name := Option.some.inj hsite
        exact .inl (.base hr ht (hns ▸ hsame) hc hcl hkind hname hnone)
      · cases hkind.symm.trans (congrArg Listing.kind he)

/-- A class that passes for the root type. -/
theorem provided_of_foundRoot (hk : Stocked s rs d)
    (hfound : (d.registry.index.lookup? s.rootType (some .cls)).any (·.kind.isClass) = true) :
    Provided s rs d s.rootType := by
  rcases hk.taken_or_none s.rootType with htaken | hnone
  · exact .inr htaken
  cases hplain : d.registry.index.native.get? s.rootType with
  | some e => exact .inr ⟨e, hplain⟩
  | none =>
    -- With the plain key free, what is found stands under the key for a class.
    have hmanaged : Index.lookupIn d.registry.index.managed s.rootType (some .cls) = none := by
      simp [Index.lookupIn, hk.nestable.keyed.managed]
    have hkeyed : d.registry.index.lookup? s.rootType (some .cls) =
        d.registry.index.native.get? (Kind.cls.keyed s.rootType) := by
      rw [Index.lookup?, hmanaged]
      simp [Index.lookupIn, hplain]
    rw [hkeyed, Option.any_eq_true] at hfound
    obtain ⟨e, he, hclass⟩ := hfound
    obtain ⟨-, hkind, -⟩ := hk.nestable.sound.points (t := .native) he
    have hmem := mem_indexed_of_points (t := .native) hk.nestable.sound.points he
    have hcls : e.kind = .cls := by
      have hnot := hkind ▸ hk.nestable.noInvoker e.id
      revert hclass hnot
      cases e.kind <;> decide
    rcases hk.nestable.keyed.native he with hname | ⟨hname, htaken⟩
    · cases hk.known e.id hmem with
      | record hl => exact .inl (.root hl (hkind.trans hcls) hname.symm hnone)
      | ns hns => cases (hkind.trans hcls).symm.trans hns
      | base hface => cases (hkind.trans hcls).symm.trans hface
      | root _ hroot => exact absurd (hname.trans hroot) (Index.keyed_ne _ _)
    · rw [hcls] at hname
      exact .inr ((Index.keyed_inj.1 hname).2 ▸ htaken)

theorem Provided.of_supports (hp : Provided s rs d name) (hst : ReflTransGen (Support s) d d') :
    Provided s rs d' name := hp.imp_right (taken_of_supports hst)

theorem provided_of_makeType {kind : TypeKind} {useGlobal : Bool}
    (hd : makeType ns kind name useGlobal d = .ok () d') : Provided s rs d' name := by
  obtain ⟨r, hr, rfl⟩ := makeType_ok hd
  exact .inr (Index.taken_of_insert hr)

theorem provided_of_ensureRootType (hk : Stocked s rs d)
    (hd : ensureRootType s.rootType d = .ok () d') : Provided s rs d' s.rootType := by
  obtain ⟨_, _, hindex, hd⟩ := bind_ok.1 hd
  obtain ⟨rfl, rfl⟩ := index_ok.1 hindex
  split at hd
  next hfound =>
    obtain ⟨-, rfl⟩ := pure_ok.1 hd
    exact provided_of_foundRoot hk hfound
  next =>
    obtain ⟨ns, d₁, -, hmake⟩ := bind_ok.1 hd
    exact provided_of_makeType hmake

/-- After the pass that adds supporting types, all that they are called by is there or misspelt. -/
theorem provided_of_bootstrap (hu : Unmentioned s.supportNames rs) (hmake : s.makeRootType = true)
    (hingest : ingest rs { registry := .empty policy } = .ok () d)
    (hd : bootstrap s d = .ok () d') :
    Stocked s rs d' ∧ Provided s rs d' s.runtimeNamespace ∧ Provided s rs d' s.baseInterface ∧
      Provided s rs d' s.rootType := by
  have hk := stocked_of_ingest hu hingest
  have hs := hk.nestable.sound
  have hlisted : ∀ i ∈ d.hierarchy.indexed, d.hierarchy.listing i ∈ rs.flatMap Record.listings := by
    intro i hi
    have hlistings := (taking_of_ingest hingest).listings
    rw [List.append_nil] at hlistings
    exact hlistings ▸ List.mem_map_of_mem hi
  refine ⟨stocked_of_supports (bootstrap_ok hs hd) hk, ?_⟩
  obtain ⟨ns, d₁, hns, hd⟩ := bind_ok.1 hd
  obtain ⟨hruntime, hsame⟩ :=
    provided_of_runtimeNamespace hk hlisted (gathered_of_ingest hingest).unnamed hns
  obtain ⟨hsteps₁, hmem⟩ := runtimeNamespace_ok hs hns
  have hk₁ := stocked_of_supports hsteps₁ hk
  obtain ⟨_, _, hh, hd⟩ := bind_ok.1 hd
  obtain ⟨rfl, rfl⟩ := hierarchy_ok.1 hh
  have hbase : ∃ d₂, ReflTransGen (Support s) d₁ d₂ ∧ Provided s rs d₂ s.baseInterface ∧
      ensureRootType s.rootType d₂ = .ok () d' := by
    rw [hmake] at hd
    split at hd
    next hface => exact ⟨d₁, .refl, provided_of_hasInterface hk₁ hsame hface, hd⟩
    next =>
      obtain ⟨_, d₂, htype, hd⟩ := bind_ok.1 hd
      refine ⟨d₂, ?_, provided_of_makeType htype, hd⟩
      obtain ⟨r, hr, rfl⟩ := makeType_ok htype
      exact .single (.type hmem (.inl ⟨rfl, rfl⟩) hr)
  obtain ⟨d₂, hsteps₂, hface, hd⟩ := hbase
  have hk₂ := stocked_of_supports hsteps₂ hk₁
  have hsteps₃ := ensureRootType_ok hk₂.nestable.sound hd
  exact ⟨(hruntime.of_supports hsteps₂).of_supports hsteps₃, hface.of_supports hsteps₃,
    provided_of_ensureRootType hk₂ hd⟩

end BindingTree

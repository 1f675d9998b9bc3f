import BindingTree.Proofs.Build.Calls

/-! Finding base types. The base types of a type are what its names lead to in the index as it
stands when all invokers are made, each once and without the type itself, or else the one default
base of its kind. A name that leads nowhere fails the build, so in a build that succeeds every type
whose base types are not fixed has them, and as the index leads to types and namespaces only, all of
them are still there at the end. -/

namespace BindingTree

open Build Naming

/-! ### What base names lead to -/

/-- The element that a name leads to, entries of a kind before all others. -/
def Index.find? (ix : Index) (name : String) (hint : Kind) : Option ElementId :=
  (ix.lookup? name (some hint)).map Entry.id

/-- The name of the default base of types of a kind, and the kind that is looked for. -/
def Settings.defaultBase (s : Settings) : Kind → String × Kind
  | .iface => (s.baseInterface, .iface)
  | _ => (s.rootType, .cls)

/-- What a list of base names comes to for an element of a kind: all that they lead to, in order of
first occurrence and without the element itself, or the default base where that leaves nothing. -/
inductive Index.Bases (ix : Index) (s : Settings) (k : Kind) (i : ElementId) (names : List String) :
    List ElementId → Prop where
  | named {found : List ElementId}
    (hfound : List.Forall₂ (fun name b => ix.find? name .iface = some b) names found)
    (hproper : found.eraseDups.filter (· ≠ i) ≠ []) :
    Bases ix s k i names (found.eraseDups.filter (· ≠ i))
  | default {found : List ElementId} {b : ElementId}
    (hfound : List.Forall₂ (fun name b => ix.find? name .iface = some b) names found)
    (hproper : found.eraseDups.filter (· ≠ i) = [])
    (hdefault : ix.find? (s.defaultBase k).1 (s.defaultBase k).2 = some b) :
    Bases ix s k i names (if b = i then [] else [b])

/-- Whether a name with a kind is looked up for an element of a kind with some base names. -/
def Settings.Seeks (s : Settings) (k : Kind) (names : List String) (name : String) (hint : Kind) :
    Prop :=
  name ∈ names ∧ hint = .iface ∨ (name, hint) = s.defaultBase k

variable {p : Plan} {rs : List Record} {s : Settings} {d d' d₁ d₂ d₃ d₄ d₅ d₆ : Draft}
  {ix : Index} {h h' h'' : Hierarchy} {i b : ElementId} {e : Element} {k : Kind} {tk : TypeKind}
  {facts : TypeFacts} {name : String} {names : List String} {is found seen bases : List ElementId}

namespace Index.Bases

theorem nodup (hb : ix.Bases s k i names bases) : bases.Nodup := by
  cases hb with
  | named => exact (nodup_eraseDups _).filter _
  | default => split <;> simp

theorem not_mem (hb : ix.Bases s k i names bases) : i ∉ bases := by
  cases hb with
  | named => simp
  | @default _ b =>
    split
    next => exact List.not_mem_nil
    next hne => simpa using Ne.symm hne

/-- Each base type is what some name leads to. -/
theorem sought (hb : ix.Bases s k i names bases) (hmem : b ∈ bases) :
    ∃ name hint, s.Seeks k names name hint ∧ ix.find? name hint = some b := by
  cases hb with
  | @named found hfound hproper =>
    have hb : b ∈ found := List.mem_eraseDups.1 (List.mem_filter.1 hmem).1
    obtain ⟨n, hn, rfl⟩ := List.getElem_of_mem hb
    have hn' : n < names.length := hfound.length_eq ▸ hn
    exact ⟨names[n], .iface, .inl ⟨List.getElem_mem hn', rfl⟩, hfound.get hn' hn⟩
  | @default found x hfound hproper hdefault =>
    split at hmem
    · cases hmem
    · obtain rfl := List.mem_singleton.1 hmem
      exact ⟨_, _, .inr rfl, hdefault⟩

theorem default_of_nil (hb : ix.Bases s k i names bases) (hnil : bases = []) :
    ix.find? (s.defaultBase k).1 (s.defaultBase k).2 = some i := by
  cases hb with
  | named hfound hproper => exact absurd hnil hproper
  | default hfound hproper hdefault =>
    split at hnil
    next he => rwa [← he]
    next => cases hnil

/-- Where all that is found are other elements, none of them twice, these are the base types. -/
theorem eq_of_found (hb : ix.Bases s k i names bases)
    (hfound : List.Forall₂ (fun name b => ix.find? name .iface = some b) names found)
    (hnodup : found.Nodup) (hi : i ∉ found) (hne : found ≠ []) : bases = found := by
  have hself : found.eraseDups.filter (· ≠ i) = found := by
    rw [eraseDups_of_nodup hnodup, List.filter_eq_self]
    intro b hmem
    simpa using fun heq : b = i => hi (heq ▸ hmem)
  have hsame : ∀ {found'}, List.Forall₂ (fun name b => ix.find? name .iface = some b) names found' →
      found' = found := fun hfound' => List.right_unique_forall₂'
    (fun _ _ _ ha hb => Option.some.inj (ha.symm.trans hb)) hfound' hfound
  cases hb with
  | named hfound' => rw [hsame hfound', hself]
  | default hfound' hproper =>
    rw [hsame hfound', hself] at hproper
    exact absurd hproper hne

end Index.Bases

/-- An entry that a name leads to. -/
theorem Draft.Sound.of_find? (hs : d.Sound) {hint : Kind}
    (hb : d.registry.index.find? name hint = some b) :
    b < d.hierarchy.size ∧ ((d.hierarchy.kind b).isType = true ∨ d.hierarchy.kind b = .ns) := by
  obtain ⟨entry, he, rfl⟩ := Option.map_eq_some_iff.1 hb
  obtain ⟨hlt, hkind, htype⟩ := hs.lookup he
  exact ⟨hlt, by rwa [hkind]⟩

namespace Build

/-! ### One type -/

theorem find?_of_lookup {hint : Kind} (hd : lookup name (some hint) e d = .ok b d') :
    d.registry.index.find? name hint = some b ∧ d' = d := by
  obtain ⟨⟨entry, he, rfl⟩, rfl⟩ := lookup_ok.1 hd
  exact ⟨by rw [Index.find?, he, Option.map_some], rfl⟩

/-- What is found so far, with one more element. -/
theorem filter_eraseDups_concat (seen : List ElementId) (b i : ElementId) :
    (seen ++ [b]).eraseDups.filter (· ≠ i) =
      if b ≠ i && b ∉ seen.eraseDups.filter (· ≠ i) then seen.eraseDups.filter (· ≠ i) ++ [b]
      else seen.eraseDups.filter (· ≠ i) := by
  rw [eraseDups_concat]
  by_cases hi : b = i
  · subst hi
    by_cases hmem : b ∈ seen <;> simp [hmem]
  · by_cases hmem : b ∈ seen <;> simp [hmem, hi]

theorem found_of_findBases (seen : List ElementId)
    (hd : findBases i e (seen.eraseDups.filter (· ≠ i)) names d = .ok bases d') :
    ∃ found, List.Forall₂ (fun name b => d.registry.index.find? name .iface = some b) names found ∧
      bases = (seen ++ found).eraseDups.filter (· ≠ i) := by
  induction names generalizing seen with
  | nil =>
    obtain ⟨rfl, rfl⟩ := pure_ok.1 hd
    exact ⟨[], .nil, by rw [List.append_nil]⟩
  | cons name names ih =>
    obtain ⟨b, _, hlookup, hrest⟩ := bind_ok.1 hd
    obtain ⟨hb, rfl⟩ := find?_of_lookup hlookup
    rw [← filter_eraseDups_concat] at hrest
    obtain ⟨found, hfound, rfl⟩ := ih _ hrest
    exact ⟨b :: found, .cons hb hfound, by rw [List.append_assoc, List.singleton_append]⟩

theorem defaultBase_eq (s : Settings) (i : ElementId) (e : Element) :
    defaultBase s i e = do
      let base ← lookup (s.defaultBase e.kind).1 (some (s.defaultBase e.kind).2) e
      return if base = i then [] else [base] := by
  unfold defaultBase Settings.defaultBase
  cases e.kind <;> rfl

/-- What an element is given when its base names are looked up, and its default base where they lead
to nothing else. -/
theorem bases_of_findBases (hk : e.kind = k)
    (hd : (do
      let found ← findBases i e [] names
      let bases ← if found = [] then defaultBase s i e else pure found
      editElement i (basedOn bases)) d = .ok () d') :
    ∃ bases, d.registry.index.Bases s k i names bases ∧
      { d with hierarchy := d.hierarchy.modify i (basedOn bases) } = d' := by
  obtain ⟨bases, _, hfind, hd⟩ := bind_ok.1 hd
  obtain rfl := findBases_ok hfind
  obtain ⟨found, hfound, rfl⟩ := found_of_findBases [] hfind
  rw [List.nil_append] at hd
  split at hd
  next hnil =>
    obtain ⟨bases, _, hdefault, hd⟩ := bind_ok.1 hd
    rw [defaultBase_eq, hk] at hdefault
    obtain ⟨b, _, hlookup, hpure⟩ := bind_ok.1 hdefault
    obtain ⟨hb, rfl⟩ := find?_of_lookup hlookup
    obtain ⟨rfl, rfl⟩ := pure_ok.1 hpure
    exact ⟨_, .default hfound hnil hb, editElement_ok.1 hd⟩
  next hproper =>
    obtain ⟨bases, _, hpure, hd⟩ := bind_ok.1 hd
    obtain ⟨rfl, rfl⟩ := pure_ok.1 hpure
    exact ⟨_, .named hfound hproper, editElement_ok.1 hd⟩

/-- What becomes of a payload when base types are found by an index. -/
inductive Resolved (s : Settings) (ix : Index) (i : ElementId) : Payload → Payload → Prop where
  | found {k : TypeKind} {facts : TypeFacts} {bases : List ElementId}
    (hfree : facts.basesFixed = false) (hnone : facts.bases = none)
    (hbases : ix.Bases s k.kind i facts.baseNames bases) :
    Resolved s ix i (.type k facts) (.type k { facts with bases := some bases })
  | fixed {k : TypeKind} {facts : TypeFacts}
    (hfixed : facts.basesFixed = true ∨ facts.bases.isSome = true) :
    Resolved s ix i (.type k facts) (.type k facts)
  | other {payload : Payload} (hother : ∀ k facts, payload ≠ .type k facts) :
    Resolved s ix i payload payload

theorem Resolved.bases_of_free {payload payload' : Payload} (hr : Resolved s ix i payload payload')
    (hp : payload = .type tk facts) (hfree : facts.basesFixed = false)
    (hnone : facts.bases = none) :
    ∃ bases, payload' = .type tk { facts with bases := some bases } ∧
      ix.Bases s tk.kind i facts.baseNames bases := by
  cases hr with
  | found _ _ hbases =>
    cases hp
    exact ⟨_, rfl, hbases⟩
  | fixed hfixed =>
    cases hp
    rcases hfixed with htrue | hsome
    · cases hfree.symm.trans htrue
    · rw [hnone] at hsome
      cases hsome
  | other hother => exact absurd hp (hother _ _)

theorem resolved_of_resolveBases (hi : i < d.hierarchy.size)
    (hd : resolveBases s i d = .ok () d') :
    d'.registry = d.registry ∧ (∀ j, j ≠ i → d'.hierarchy.payload j = d.hierarchy.payload j) ∧
      Resolved s d.registry.index i (d.hierarchy.payload i) (d'.hierarchy.payload i) := by
  obtain ⟨_, _, helement, hd⟩ := bind_ok.1 hd
  obtain ⟨rfl, rfl⟩ := element_ok.1 helement
  cases hfacts : (d.hierarchy.element i).facts? with
  | none =>
    simp only [hfacts] at hd
    obtain ⟨-, rfl⟩ := pure_ok.1 hd
    refine ⟨rfl, fun _ _ => rfl, .other fun k facts hp => ?_⟩
    rw [Element.facts?, ← Hierarchy.payload, hp] at hfacts
    cases hfacts
  | some facts =>
    obtain ⟨k, hp⟩ := payload_of_facts? hfacts
    rw [Hierarchy.payload, hp]
    simp only [hfacts] at hd
    split at hd
    next hfixed =>
      obtain ⟨-, rfl⟩ := pure_ok.1 hd
      refine ⟨rfl, fun _ _ => rfl, ?_⟩
      rw [Hierarchy.payload, hp]
      exact .fixed ((Bool.or_eq_true _ _).mp hfixed)
    next hfree =>
      rw [Bool.not_eq_true, Bool.or_eq_false_iff, Option.isSome_eq_false_iff,
        Option.isNone_iff_eq_none] at hfree
      obtain ⟨bases, hbases, rfl⟩ := bases_of_findBases (congrArg Payload.kind hp) hd
      refine ⟨rfl, fun j hj => ?_, ?_⟩
      · rw [Hierarchy.payload, Hierarchy.element_modify_of_ne hj, Hierarchy.payload]
      · rw [Hierarchy.payload, Hierarchy.element_modify_self hi, basedOn,
          Element.payload_withFacts, hp]
        exact .found hfree.1 hfree.2 hbases

/-! ### The pass -/

/-- Base types were found for the elements of a list. -/
structure BasesFound (s : Settings) (ix : Index) (is : List ElementId) (h h' : Hierarchy) :
    Prop where
  others : ∀ i, i ∉ is → h'.payload i = h.payload i
  resolved : ∀ i ∈ is, Resolved s ix i (h.payload i) (h'.payload i)

theorem basesFound_of_forM (hn : is.Nodup) (hlt : ∀ i ∈ is, i < d.hierarchy.size)
    (hd : is.forM (resolveBases s) d = .ok () d') :
    d'.registry = d.registry ∧
      BasesFound s d.registry.index is d.hierarchy d'.hierarchy := by
  induction is generalizing d with
  | nil =>
    obtain ⟨-, rfl⟩ := pure_ok.1 hd
    exact ⟨rfl, fun _ _ => rfl, fun i hi => by cases hi⟩
  | cons i is ih =>
    obtain ⟨_, d₁, hi, hrest⟩ := bind_ok.1 hd
    obtain ⟨hnot, hnodup⟩ := List.nodup_cons.1 hn
    have hsize : d₁.hierarchy.size = d.hierarchy.size := by
      rcases resolveBases_ok hi with rfl | ⟨bases, rfl⟩
      · rfl
      · exact Hierarchy.size_modify
    obtain ⟨hreg, hothers, hres⟩ := resolved_of_resolveBases (hlt i List.mem_cons_self) hi
    obtain ⟨hreg', hfound⟩ :=
      ih hnodup (fun j hj => hsize ▸ hlt j (List.mem_cons_of_mem _ hj)) hrest
    rw [hreg] at hfound
    refine ⟨hreg'.trans hreg, fun j hj => ?_, fun j hj => ?_⟩
    · rw [List.mem_cons, not_or] at hj
      rw [hfound.others j hj.2, hothers j hj.1]
    · rcases List.mem_cons.1 hj with rfl | hmem
      · rwa [hfound.others j hnot]
      · have hne : j ≠ i := fun he => hnot (he ▸ hmem)
        rw [← hothers j hne]
        exact hfound.resolved j hmem

theorem payload_foldl_removeFromOwner :
    (is.foldl removeFromOwner h).payload i = h.payload i := by
  induction is generalizing h with
  | nil => rfl
  | cons j is ih =>
    rw [List.foldl_cons, ih, removeFromOwner]
    split
    · rw [Hierarchy.payload, Hierarchy.element_detach, Hierarchy.payload]
    · rfl

theorem payload_foldl_markElement : (is.foldl markElement h).payload i = h.payload i := by
  have hmark : ∀ (a : Marker) (e : Element), (Element.mark a e).payload = e.payload := by
    intro a e
    unfold Element.mark
    split <;> rfl
  induction is generalizing h with
  | nil => rfl
  | cons j is ih =>
    rw [List.foldl_cons, ih, markElement]
    split
    · split
      · exact Hierarchy.congr_element_modify Element.payload (hmark _)
      · rfl
    · rfl

end Build

namespace Stages

variable (hst : Stages p rs d₁ d₂ d₃ d₄ d₅ d₆ d')
include hst

/-- The last passes find base types by the index that the pass over invokers leaves. -/
theorem resolved : d'.registry = d₆.registry ∧
    ∀ i, Resolved p.settings d₆.registry.index i (d₆.hierarchy.payload i)
      (d'.hierarchy.payload i) := by
  obtain ⟨based, hbases, hmark⟩ := hst.ending
  obtain rfl := edit_ok.1 hmark
  obtain ⟨_, _, hh, hbases⟩ := bind_ok.1 hbases
  obtain ⟨rfl, rfl⟩ := hierarchy_ok.1 hh
  obtain ⟨_, d₇, hforM, hremove⟩ := bind_ok.1 hbases
  obtain ⟨_, _, hh₁, hedit⟩ := bind_ok.1 hremove
  obtain ⟨rfl, rfl⟩ := hierarchy_ok.1 hh₁
  obtain rfl := edit_ok.1 hedit
  have ho := hst.sound_called.orderly
  obtain ⟨hreg, hfound⟩ := basesFound_of_forM (ho.nodup_walkAll.filter _)
    (fun i hi => ho.lt_size_of_mem_walkAll (List.mem_filter.1 hi).1) hforM
  refine ⟨hreg, fun i => ?_⟩
  dsimp only
  rw [payload_foldl_markElement, payload_foldl_removeFromOwner]
  by_cases hi : i ∈ d₆.hierarchy.types
  · exact hfound.resolved i hi
  · rw [hfound.others i hi]
    refine .other fun k facts hp => hi ?_
    -- Only what is no type can be missing from the list.
    have hkind : d₆.hierarchy.kind i = k.kind := congrArg Payload.kind hp
    have hlt : i < d₆.hierarchy.size :=
      Hierarchy.lt_size_of_kind_ne (by rw [hkind]; cases k <;> simp [TypeKind.kind])
    refine List.mem_filter.2 ⟨ho.mem_walkAll_iff.2 fun hdet => ?_, ?_⟩
    · have himpl := ho.attached hlt hdet
      rw [hkind] at himpl
      cases k <;> cases himpl
    · change (d₆.hierarchy.kind i).isType = true
      rw [hkind]
      cases k <;> rfl

/-- Whatever is no record of an implemented interface is there at the end. -/
theorem mem_walkAll_of_kind (hi : i < d₆.hierarchy.size) (hk : d₆.hierarchy.kind i ≠ .implements) :
    i ∈ d'.hierarchy.walkAll := by
  have ho := hst.sound_finished.orderly
  refine ho.mem_walkAll_iff.2 fun hdet => hk ?_
  rw [← hst.finish.kind]
  exact ho.attached (hst.finish.size ▸ hi) hdet

theorem mem_walkAll_of_find? {hint : Kind} (hb : d₆.registry.index.find? name hint = some b) :
    b ∈ d'.hierarchy.walkAll := by
  obtain ⟨hlt, htype⟩ := hst.sound_called.of_find? hb
  refine hst.mem_walkAll_of_kind hlt fun himpl => ?_
  rw [himpl] at htype
  revert htype
  decide

end Stages

/-! ### Where base names come from -/

namespace Stages

variable (hst : Stages p rs d₁ d₂ d₃ d₄ d₅ d₆ d')
include hst

/-- No base types are found before the pass over them. -/
theorem bases_called (hp : d₆.hierarchy.payload i = .type tk facts) : facts.bases = none := by
  rcases hst.payload_called i with ⟨-, hsame⟩ | ⟨n, hn, hmade⟩ | ⟨n, f, hn, rfl, hmade⟩
  · exact (hst.facts_enclosed (hsame.symm.trans hp)).2.bases
  · obtain ⟨facts', hp₅, rfl⟩ := Payload.of_calledBy (hmade.interface.symm.trans hp)
    exact (hst.facts_enclosed hp₅).2.bases
  · rw [hmade.invoker] at hp
    cases hp
    rfl

/-- A type whose base types are to be found has the base names of its record or, if it is an
invoker, the root type and the interface. -/
theorem names_called (hp : d₆.hierarchy.payload i = .type tk facts)
    (hfree : facts.basesFixed = false) :
    (∃ r, (Record.taken rs)[i]? = some r ∧ facts.baseNames = r.baseNames.eraseDups) ∨
      tk = .invoker ∧ ∃ f, f < d₅.hierarchy.size ∧ facts.invoked = some f ∧
        facts.baseNames = [p.settings.rootType, d₅.hierarchy.fullName f] := by
  have hrecord : ∀ {tk : TypeKind} {facts : TypeFacts},
      d₅.hierarchy.payload i = .type tk facts → facts.basesFixed = false →
        ∃ r, (Record.taken rs)[i]? = some r ∧ facts.baseNames = r.baseNames.eraseDups := by
    intro tk facts hp hfree
    rcases hst.payload_enclosed i with ⟨r, hr, hpayload⟩ | hsupport
    · exact ⟨r, hr, Record.baseNames_of_payload? (hp ▸ hpayload)⟩
    · rw [hp] at hsupport
      cases hsupport
      cases hfree
  rcases hst.payload_called i with ⟨-, hsame⟩ | ⟨n, hn, hmade⟩ | ⟨n, f, hn, rfl, hmade⟩
  · exact .inl (hrecord (hsame.symm.trans hp) hfree)
  · obtain ⟨facts', hp₅, rfl⟩ := Payload.of_calledBy (hmade.interface.symm.trans hp)
    obtain ⟨r, hr, hnames⟩ := hrecord hp₅ hfree
    exact .inl ⟨r, hr, hnames⟩
  · rw [hmade.invoker] at hp
    cases hp
    have hmem := List.mem_of_getElem? hn
    exact .inr ⟨rfl, f, hst.sound_enclosed.orderly.lt_size_of_mem_walkAll
      (List.mem_filter.1 hmem).1, rfl, rfl⟩

/-- The base types that a type has at the end were found from its base names. -/
theorem bases_finished (hp : d'.hierarchy.payload i = .type tk facts)
    (hbases : facts.bases = some bases) :
    d₆.registry.index.Bases p.settings tk.kind i facts.baseNames bases := by
  have hres := hst.resolved.2 i
  rw [hp] at hres
  generalize hcalled : d₆.hierarchy.payload i = payload at hres
  cases hres with
  | found _ _ hfound =>
    cases hbases
    exact hfound
  | fixed => cases (hst.bases_called hcalled).symm.trans hbases
  | other hother => exact absurd rfl (hother _ _)

/-- Interfaces keep their names to the end. -/
theorem fullName_finished (hi : i < d₅.hierarchy.size) :
    d'.hierarchy.fullName i = d₅.hierarchy.fullName i :=
  (Hierarchy.fullName_of_native (hst.finish.native i)).trans
    (Hierarchy.fullName_of_native (hst.invokers.native hi))

end Stages

/-! ### The whole build -/

/-- The base types of a build. Each type that is reached from the top and whose base types are not
fixed has them. They are what its base names come to in the index at the end: for the element of a
record the names that the record gives, for an invoker the root type and the interface. None is
there twice, none is the type itself, all are reached from the top, and there are none only for a
type that is its own default base. -/
theorem bases_of_build (hb : (p.build rs).result = .ok h) :
    ∃ d, p.passes rs p.blank = .ok () d ∧ d.hierarchy = h ∧
      ∀ i ∈ h.walkAll, ∀ facts, (h.element i).facts? = some facts → facts.basesFixed = false →
        ((∃ r, (Record.taken rs)[i]? = some r ∧ (h.element i).origin.StandsFor r.head ∧
            facts.baseNames = r.baseNames.eraseDups) ∨
          h.kind i = .invoker ∧ ∃ f, facts.invoked = some f ∧
            facts.baseNames = [p.settings.rootType, h.fullName f]) ∧
        ∃ bases, facts.bases = some bases ∧
          d.registry.index.Bases p.settings (h.kind i) i facts.baseNames bases ∧
          bases.Nodup ∧ i ∉ bases ∧ (∀ b ∈ bases, b ∈ h.walkAll) ∧
          (bases = [] → d.registry.index.find? (p.settings.defaultBase (h.kind i)).1
            (p.settings.defaultBase (h.kind i)).2 = some i) := by
  obtain ⟨d, hd, rfl⟩ := build_ok hb
  obtain ⟨d₁, d₂, d₃, d₄, d₅, d₆, hst⟩ := stages_of_passes hd
  obtain ⟨hreg, hresolved⟩ := hst.resolved
  refine ⟨d, hd, rfl, fun i _ facts hfacts hfree => ?_⟩
  obtain ⟨tk, hp⟩ := payload_of_facts? hfacts
  have hkind : d.hierarchy.kind i = tk.kind := congrArg Payload.kind hp
  have hres := hresolved i
  have hp' : d.hierarchy.payload i = .type tk facts := hp
  rw [hp'] at hres
  rw [hkind, hreg]
  generalize hcalled : d₆.hierarchy.payload i = payload at hres
  cases hres with
  | @found _ facts₆ bases _ hnone hbases =>
    refine ⟨?_, bases, rfl, hbases, hbases.nodup, hbases.not_mem, fun b hmem => ?_,
      hbases.default_of_nil⟩
    · rcases hst.names_called hcalled hfree with ⟨r, hr, hnames⟩ | ⟨rfl, f, hf, hcalls, hnames⟩
      · exact .inl ⟨r, hr, standsFor_of_taken hd hr, hnames⟩
      · refine .inr ⟨rfl, f, hcalls, ?_⟩
        rw [hst.fullName_finished hf]
        exact hnames
    · obtain ⟨name, hint, -, hfind⟩ := hbases.sought hmem
      exact hst.mem_walkAll_of_find? hfind
  | fixed hfixed =>
    have hnone := hst.bases_called hcalled
    rcases hfixed with htrue | hsome
    · cases hfree.symm.trans htrue
    · rw [hnone] at hsome
      cases hsome
  | other hother => exact absurd rfl (hother _ _)

/-- A class that extends a generic class and implements an interface twice, and itself once. -/
def derivedRecords : List Record :=
  [.plain (.ns {}) "a"
    [.plain (.iface {}) "Face" [], .plain (.cls { base := some "a.Root<T>" }) "C"
        [.plain (.implements {}) "a.Face" [], .plain (.implements {}) "a.Face<X>" [],
          .plain (.implements {}) "a.C" []],
      .plain (.cls {}) "Root" []]]

theorem bases_of_derived : ∃ h d, (samplePlan.build derivedRecords).result = .ok h ∧
    samplePlan.passes derivedRecords samplePlan.blank = .ok () d ∧ 2 ∈ h.walkAll ∧
      d.registry.index.Bases samplePlan.settings .cls 2 ["a.Root", "a.Face", "a.C"] [6, 1] ∧
        [6, 1].Nodup ∧ 2 ∉ [6, 1] ∧ 6 ∈ h.walkAll ∧ 1 ∈ h.walkAll := by
  obtain ⟨h, hb, hq⟩ := exists_built samplePlan derivedRecords
    (fun h => decide (2 ∈ h.walkAll) && decide (h.kind 2 = .cls) &&
      decide ((h.element 2).facts? =
        some { baseNames := ["a.Root", "a.Face", "a.C"], bases := some [6, 1] }))
    (by decide +kernel)
  simp only [Bool.and_eq_true, decide_eq_true_eq] at hq
  obtain ⟨⟨hmem, hkind⟩, hfacts⟩ := hq
  obtain ⟨d, hd, rfl, hall⟩ := bases_of_build hb
  obtain ⟨-, bases, hsome, hbases, hnodup, hnot, hreached, -⟩ := hall 2 hmem _ hfacts rfl
  cases hsome
  rw [hkind] at hbases
  exact ⟨d.hierarchy, d, hb, hd, hmem, hbases, hnodup, hnot, hreached 6 (by simp),
    hreached 1 (by simp)⟩

end BindingTree

import BindingTree.Proofs.Build.EnumNames
import BindingTree.Proofs.Build.ManagedChain
import BindingTree.Proofs.Build.Upkeep

/-! The rounds of the pass over enums. All moves come first; then each moved enum has one round, in
which its entries go and it is named and entered anew. Before a round the enums that are yet to have
theirs, and all types and namespaces that were not moved, are as they were before the pass. The other
passes only enter elements, so the index is kept up from the first to the last. -/

namespace BindingTree

open Build
open Naming (Translator)
open Relation (ReflTransGen)

variable {p : Plan} {rs : List Record} {heads : List Record.Head} {s : Settings} {t : Translator}
  {d d' d₁ d₂ d₃ d₄ d₅ d₆ base : Draft} {h : Hierarchy} {i j : ElementId} {u : Table}
  {is : List ElementId}

namespace Build

/-- The enums that the pass over enums moves. -/
def nestedEnums (d : Draft) : List ElementId :=
  (nestMoves ownsEnums d d.hierarchy.rootEnums).map Prod.fst

theorem mem_nestedEnums : i ∈ nestedEnums d ↔
    i ∈ d.hierarchy.rootEnums ∧ (nest? ownsEnums d i).isSome = true := mem_keys_nestMoves

theorem kind_of_mem_nestedEnums (hs : d.Sound) (hi : i ∈ nestedEnums d) :
    d.hierarchy.kind i = .enum := (hs.orderly.mem_rootEnums.1 (mem_nestedEnums.1 hi).1).1

/-- The entries of other elements stay. -/
theorem get?_withoutNames {r : Registry} {x : Element} {k : String} {e : Entry}
    (he : (r.index.table u).get? k = some e) (hne : e.id ≠ i) :
    ((withoutNames r i x).index.table u).get? k = some e := by
  have hstay : ∀ {ix : Index} {v : Table} {key : String}, (ix.table u).get? k = some e →
      ((ix.remove v key ⟨i, x.kind⟩).1.table u).get? k = some e :=
    fun he => Index.get?_remove_of_get? he fun hid => absurd hid hne
  unfold withoutNames
  cases x.fullManagedName with
  | some managed => exact hstay (hstay he)
  | none => exact hstay he

/-- In the midst of the pass over enums: the moves are made, and the enums of a list are yet to be
named anew. -/
structure Midway (base : Draft) (is : List ElementId) (d : Draft) : Prop where
  sound : d.Sound
  upkept : d.Upkept
  renamable : Renamable is d.hierarchy
  pending : is ⊆ nestedEnums base
  size : d.hierarchy.size = base.hierarchy.size
  kind : d.hierarchy.kind = base.hierarchy.kind
  log : base.registry.log ⊆ d.registry.log
  kept : ∀ j ∈ base.hierarchy.indexed, j ∈ is ∨ j ∉ nestedEnums base →
    d.hierarchy.element j = base.hierarchy.element j

namespace Midway

theorem indexed (hm : Midway base is d) : j ∈ d.hierarchy.indexed ↔ j ∈ base.hierarchy.indexed := by
  rw [Hierarchy.mem_indexed, Hierarchy.mem_indexed, hm.size, hm.kind]

variable (hm : Midway base (i :: is) d)
include hm

theorem enum : d.hierarchy.kind i = .enum := hm.renamable.enum i List.mem_cons_self

theorem attached : d.hierarchy.owner i ≠ .detached := hm.renamable.attached List.mem_cons_self

theorem not_mem : i ∉ is := (List.nodup_cons.1 hm.renamable.nodup).1

theorem mem_indexed : i ∈ d.hierarchy.indexed :=
  Hierarchy.mem_indexed.2 ⟨Hierarchy.lt_size_of_owner_ne hm.attached, by rw [hm.enum]; rfl⟩

theorem element : d.hierarchy.element i = base.hierarchy.element i :=
  hm.kept i (hm.indexed.1 hm.mem_indexed) (.inl List.mem_cons_self)

theorem upkeep {may : Table → ElementId → String → Prop} (hd : renameEnum t i d = .ok () d')
    (hmay : ∀ u, may u i (base.hierarchy.called u i)) : ReflTransGen (Upkeep may is)
      { d with registry := withoutNames d.registry i (d.hierarchy.element i) } d' := by
  refine upkeep_of_rename hm.sound hm.enum hm.attached hd hm.upkept.filed hm.not_mem
    fun u => ?_
  rw [Hierarchy.called, hm.element]
  exact hmay u

/-- A round. -/
theorem rename (hd : renameEnum t i d = .ok () d') : Midway base is d' := by
  have hlt := Hierarchy.lt_size_of_owner_ne hm.attached
  have hrenamed := renamedOver_of_rename hlt hd
  have hsteps : ReflTransGen (Upkeep (fun _ _ _ => True) is) _ d' := hm.upkeep hd fun _ => trivial
  refine ⟨sound_of_rename hm.sound hm.attached hm.enum hd, hm.upkept.withoutNames.steps hsteps,
    hm.renamable.tail hrenamed.toSamePlaces,
    List.Subset.trans (List.subset_cons_self i is) hm.pending, hrenamed.size.trans hm.size,
    hrenamed.kind.trans hm.kind, ?_, fun j hj hnot => ?_⟩
  · have hlog := log_subset_of_upkeep hsteps
    rw [log_withoutNames] at hlog
    exact List.Subset.trans hm.log hlog
  have hji : j ≠ i := by
    rintro rfl
    exact hnot.elim hm.not_mem fun h => h (hm.pending List.mem_cons_self)
  rw [element_of_rename hm.sound hm.enum hm.attached hd (hm.indexed.2 hj) hji]
  exact hm.kept j hj (hnot.imp_left (List.mem_cons_of_mem i))

end Midway

section Pass
variable (hs : d.Sound) (hu : d.Upkept)
include hs hu

theorem midway_of_moves
    (hm : Moves.makeAll (nestMoves ownsEnums d d.hierarchy.rootEnums) d.hierarchy = .ok () h) :
    Midway d (nestedEnums d) { d with hierarchy := h } := by
  have hsame := Moves.sameElements_makeAll hm
  have hedit : Upkeep never [] d { d with hierarchy := h } :=
    .edit hs (Nat.le_of_eq hsame.size.symm) (fun _ _ => by rw [hsame.kind])
      (fun j _ u => .inl (by rw [hsame.element])) rfl (List.Subset.refl _) fun _ h => h
  exact ⟨hs.extend (orderly_of_enumMoves hs hm) (Nat.le_of_eq hsame.size.symm)
    fun _ _ => by rw [hsame.kind], hu.step hedit,
    renamable_of_enumMoves hs hm, List.Subset.refl _,
    hsame.size, hsame.kind, List.Subset.refl _, fun _ _ _ => by rw [hsame.element]⟩

/-- What holds once the moves are made, and is kept by each round, holds after the pass. -/
theorem nestEnums_rounds {I : List ElementId → Draft → Prop}
    (start : ∀ h, d.hierarchy.SameElements h → I (nestedEnums d) { d with hierarchy := h })
    (round : ∀ i is d₁ d₂, Midway d (i :: is) d₁ → I (i :: is) d₁ → renameEnum t i d₁ = .ok () d₂ →
      Midway d is d₂ → I is d₂)
    (hd : nestEnums t d = .ok () d') : Midway d [] d' ∧ I [] d' := by
  obtain ⟨-, h, hmade, hrename⟩ := nestEnums_moves hs hd
  refine forM_ok (I := fun is d₁ => Midway d is d₁ ∧ I is d₁) ?_
    ⟨midway_of_moves hs hu hmade, start h (Moves.sameElements_makeAll hmade)⟩ hrename
  rintro i is d₁ d₂ ⟨hm, hI⟩ hrun
  exact ⟨hm.rename hrun, round i is d₁ d₂ hm hI hrun (hm.rename hrun)⟩

theorem midway_of_nestEnums (hd : nestEnums t d = .ok () d') : Midway d [] d' :=
  (nestEnums_rounds (I := fun _ _ => True) hs hu (fun _ _ => trivial)
    (fun _ _ _ _ _ _ _ _ => trivial) hd).1

end Pass

/-! ### Enums before the pass -/

/-- Every enum stands at the top. -/
def EnumsOnTop (h : Hierarchy) : Prop := ∀ ⦃i : ElementId⦄, h.kind i = .enum → h.owner i = .root

namespace EnumsOnTop

variable {h' : Hierarchy} (ht : EnumsOnTop h)
include ht

theorem fresh {o : Owner} {e : Element} (hf : h.Fresh h' o e) (he : e.kind = .enum → o = .root) :
    EnumsOnTop h' := by
  intro i hk
  have hsize : i < h'.size := Hierarchy.lt_size_of_kind_ne (by simp [hk])
  rcases hf.lt_or_eq hsize with hlt | rfl
  · rw [hf.owner_of_lt hlt]
    exact ht (hf.kind_of_lt hlt ▸ hk)
  · rw [hf.owner_new]
    exact he (hf.kind_new ▸ hk)

theorem same (hs : h.SamePlaces h') : EnumsOnTop h' := by
  intro i hk
  rw [hs.owner]
  exact ht (hs.kind ▸ hk)

end EnumsOnTop

theorem kind_ne_enum_of_accepts {k : Kind} {c : Content} {payload : Payload}
    (ha : accepts k c.tag = true) (hp : payload? c = some payload) : payload.kind ≠ .enum := by
  intro he
  cases c <;> cases hp <;> cases he
  revert ha
  cases k <;> simp [accepts, Content.tag]

theorem enumsOnTop_of_intake (hst : Intake heads d d') (ht : EnumsOnTop d.hierarchy) :
    EnumsOnTop d'.hierarchy := by
  cases hst with
  | ns hm hc => exact ht.fresh .putNamespace fun _ => rfl
  | enum hm hc hdot => exact ht.fresh .putEnum fun _ => rfl
  | below hst =>
    cases hst with
    | below hm hp ha hc =>
      exact ht.fresh .putBelow fun he => absurd he (kind_ne_enum_of_accepts ha hc)
    | inherit hm hc hn => exact ht.same (.modify (Element.kind_withFacts _))
    | enter hi htype hr => exact ht
    | notice => exact ht

theorem enumsOnTop_of_support (hst : Support s d d') (ht : EnumsOnTop d.hierarchy) :
    EnumsOnTop d'.hierarchy := by
  cases hst with
  | ns hn hr => exact ht.fresh .putNamespace fun _ => rfl
  | give hne => exact ht.same (.modify fun _ => rfl)
  | type hns hk hr =>
    refine ht.fresh .putBelow fun he => ?_
    rcases hk with ⟨rfl, -⟩ | ⟨rfl, -, -⟩ <;> cases he

/-! ### The other passes -/

/-- Steps of another kind that keep a sound draft up. -/
theorem upkeep_of_steps {R : Draft → Draft → Prop} {may : Table → ElementId → String → Prop}
    (sound : ∀ {d d' : Draft}, R d d' → d.Sound → d'.Sound)
    (step : ∀ {d d' : Draft}, R d d' → d.Sound → ReflTransGen (Upkeep may is) d d')
    (hst : ReflTransGen R d d') (hs : d.Sound) : ReflTransGen (Upkeep may is) d d' :=
  (hs.induction (I := fun d₁ => ReflTransGen (Upkeep may is) d d₁) sound
    (fun hst hs hI => hI.trans (step hst hs)) hst .refl).2

/-- What each invoker keeps that is made, all of them together keep. -/
theorem makeInvokers_rounds {I : Draft → Prop} (hs : d.Sound) (hI : I d)
    (round : ∀ i d₁ d₂, d₁.Sound → d₁.hierarchy.kind i = .iface → I d₁ →
      makeInvoker p i d₁ = .ok () d₂ → I d₂)
    (hd : makeInvokers p d = .ok () d') : I d' := by
  obtain ⟨_, _, hh, hmake⟩ := bind_ok.1 hd
  obtain ⟨rfl, rfl⟩ := hierarchy_ok.1 hh
  refine (forM_ok (I := fun is d₁ => d₁.Sound ∧ Callable is d₁.hierarchy ∧ I d₁) ?_
    ⟨hs, callable_of_lacking hs.orderly, hI⟩ hmake).2.2
  rintro i is d₁ d₂ ⟨hs, hc, hI⟩ hrun
  have hk := (hc i List.mem_cons_self).2
  obtain ⟨hs', hmade⟩ := invokersMade_of_make hs hk hrun
  exact ⟨hs', hc.tail hmade, round i d₁ d₂ hs hk hI hrun⟩

end Build

/-- An element without managed names. -/
structure Element.Unmanaged (e : Element) : Prop where
  name : e.managedName = none
  full : e.fullManagedName = none

theorem Element.Unmanaged.withFacts {e : Element} {f : TypeFacts → TypeFacts} (he : e.Unmanaged) :
    (e.withFacts f).Unmanaged := by
  unfold Element.withFacts
  split
  · exact ⟨he.name, he.full⟩
  · exact he

namespace Enclosed

variable (he : Enclosed p rs d₁ d₂ d₃ d₄ d₅)
include he

theorem enumsOnTop : EnumsOnTop d₄.hierarchy := by
  have hblank : EnumsOnTop p.blank.hierarchy := fun i hk => by
    rw [Hierarchy.kind, Hierarchy.element, Hierarchy.node_of_size_le (Nat.zero_le i)] at hk
    cases hk
  have hsupported : EnumsOnTop d₂.hierarchy :=
    supported_induction (I := fun d => EnumsOnTop d.hierarchy) (intake_of_ingest he.ingest)
      he.support hblank (fun hst _ => enumsOnTop_of_intake hst) fun hst _ =>
        enumsOnTop_of_support hst
  have hnested : EnumsOnTop d₃.hierarchy := by
    intro i hk
    rw [he.types.kind] at hk
    -- What is moved stands below a namespace before.
    rcases he.types.stayed_or_moved i with ⟨howner, -⟩ | ⟨q, hlisted, -⟩
    · exact howner.trans (hsupported hk)
    · obtain ⟨ns, -, howner⟩ := (mem_listedTypes he.sound_supported.orderly.toWellFormed).1 hlisted
      cases howner.symm.trans (hsupported hk)
  exact hnested.same he.namedOver.toSamePlaces

/-- Every enum is one at the top before the pass. -/
theorem mem_rootEnums (hk : d₄.hierarchy.kind i = .enum) : i ∈ d₄.hierarchy.rootEnums :=
  he.sound_named.orderly.mem_rootEnums.2 ⟨hk, he.enumsOnTop hk⟩

theorem upkeep_ingested : ReflTransGen (Upkeep never []) p.blank d₁ :=
  upkeep_of_steps Intake.sound (fun hst hs => .single (upkeep_of_intake hst hs))
    (intake_of_ingest he.ingest) sound_blank

theorem upkeep_supported : ReflTransGen (Upkeep never []) d₁ d₂ :=
  upkeep_of_steps Support.sound upkeep_of_support he.support he.sound_ingested

theorem upkeep_nested : Upkeep never [] d₂ d₃ := by
  have hstep : Upkeep never [] d₂ { d₂ with hierarchy := d₃.hierarchy } :=
    upkeep_of_typesNested he.types he.sound_supported
  rwa [← he.types_registry] at hstep

/-- Nothing has a managed name before the pass that gives them. -/
theorem unmanaged_nested (i : ElementId) : (d₃.hierarchy.element i).Unmanaged := by
  have hblank : ∀ i, (p.blank.hierarchy.element i).Unmanaged := by
    intro i
    rw [Hierarchy.element, Hierarchy.node_of_size_le (Nat.zero_le i)]
    exact ⟨rfl, rfl⟩
  have hsupported : ∀ i, (d₂.hierarchy.element i).Unmanaged :=
    supported_induction (I := fun d => ∀ i, (d.hierarchy.element i).Unmanaged)
      (intake_of_ingest he.ingest) he.support hblank
      (fun hst _ => hst.forall_element (fun _ _ _ _ _ _ => ⟨rfl, rfl⟩)
        (fun _ _ hx => ⟨hx.name, hx.full⟩) fun _ _ hx => hx.withFacts)
      fun hst _ => hst.forall_element (fun _ => ⟨rfl, rfl⟩) (fun _ _ _ _ => ⟨rfl, rfl⟩)
        fun _ _ hx => ⟨hx.name, hx.full⟩
  obtain ⟨name, hname⟩ := he.types.named i
  rw [hname]
  exact ⟨(hsupported i).name, (hsupported i).full⟩

theorem anonymous_nested : Anonymous d₃.hierarchy.walkAll d₃ := by
  have ho := he.sound_nested.orderly
  exact ⟨he.sound_nested, ho.nodup_walkAll, fun _ => ho.lt_size_of_mem_walkAll,
    fun i _ _ => not_not_intro (he.unmanaged_nested i).full⟩

theorem upkeep_named : ReflTransGen (Upkeep never []) d₃ d₄ :=
  he.anonymous_nested.upkeep (fun _ _ _ => List.not_mem_nil) he.names

theorem upkept_nested : d₃.Upkept :=
  ((Draft.Upkept.blank.steps he.upkeep_ingested).steps he.upkeep_supported).step he.upkeep_nested

/-- Nothing is entered under a managed name yet. -/
theorem lacks_nested (i : ElementId) : d₃.registry.index.Lacks .managed i := by
  intro k x hx
  refine absurd ?_ (he.upkept_nested.filed hx).1
  rw [Table.nameOf, Element.fullManagedText, (he.unmanaged_nested x.id).full, Option.getD_none]

theorem upkept_named : d₄.Upkept := he.upkept_nested.steps he.upkeep_named

theorem midway : Midway d₄ [] d₅ :=
  midway_of_nestEnums he.sound_named he.upkept_named he.nesting

theorem upkept : d₅.Upkept := he.midway.upkept

/-- What is not nested keeps its names. -/
theorem called_kept (hi : i ∈ d₄.hierarchy.indexed) (hnot : i ∉ nestedEnums d₄) :
    d₅.hierarchy.called u i = d₄.hierarchy.called u i := by
  rw [Hierarchy.called, he.midway.kept i hi (.inr hnot), Hierarchy.called]

end Enclosed

namespace Stages

variable (hst : Stages p rs d₁ d₂ d₃ d₄ d₅ d₆ d')
include hst

theorem upkeep_called : ReflTransGen (Upkeep never []) d₅ d₆ :=
  makeInvokers_rounds (I := ReflTransGen (Upkeep never []) d₅) hst.sound_enclosed .refl
    (fun _ _ _ hs hk hI hrun => hI.trans (upkeep_of_makeInvoker hs hk hrun)) hst.calling

theorem upkept_called : d₆.Upkept := hst.enclosed.upkept.steps hst.upkeep_called

theorem called_of_enclosed (hi : i < d₅.hierarchy.size) :
    d₆.hierarchy.called u i = d₅.hierarchy.called u i := by
  cases u with
  | native => exact Hierarchy.fullName_of_native (hst.invokers.native hi)
  | managed =>
    exact congrArg (fun m : Option String × Option String × Option String => m.2.1.getD "")
      (hst.invokers.managed hi)

/-- The last passes keep all names. -/
theorem called_finished : d'.hierarchy.called u i = d₆.hierarchy.called u i := by
  cases u with
  | native => exact Hierarchy.fullName_of_native (hst.finish.native i)
  | managed =>
    exact congrArg (fun m : Option String × Option String × Option String => m.2.1.getD "")
      (hst.finish.managed i)

theorem indexed_finished : i ∈ d'.hierarchy.indexed ↔ i ∈ d₆.hierarchy.indexed := by
  rw [Hierarchy.mem_indexed, Hierarchy.mem_indexed, hst.finish.size, hst.finish.kind]

/-- Types and namespaces are all reached in the end. -/
theorem mem_walkAll_of_indexed (hi : i ∈ d'.hierarchy.indexed) : i ∈ d'.hierarchy.walkAll := by
  obtain ⟨hlt, hk⟩ := Hierarchy.mem_indexed.1 (hst.indexed_finished.1 hi)
  refine hst.mem_walkAll_of_kind hlt fun himpl => ?_
  rw [himpl] at hk
  cases hk

/-- Types and namespaces other than enums keep their names from when all names are given. -/
theorem kept_of_named (hi : i ∈ d₄.hierarchy.indexed) (hk : d₄.hierarchy.kind i ≠ .enum) :
    i ∈ d'.hierarchy.indexed ∧ ∀ u, d'.hierarchy.called u i = d₄.hierarchy.called u i := by
  have hstays : i ∉ nestedEnums d₄ := fun h => hk (kind_of_mem_nestedEnums hst.sound_named h)
  have hi₅ : i ∈ d₅.hierarchy.indexed := hst.enclosed.midway.indexed.2 hi
  obtain ⟨hlt, hkind⟩ := Hierarchy.mem_indexed.1 hi₅
  refine ⟨hst.indexed_finished.2 (Hierarchy.mem_indexed.2 ⟨?_, ?_⟩), fun u => ?_⟩
  · exact Nat.lt_of_lt_of_le hlt hst.invokers.size
  · rw [hst.invokers.kind hlt, hkind]
  · rw [hst.called_finished, hst.called_of_enclosed hlt, hst.enclosed.called_kept hi hstays]

/-- What is reached in the end and is no invoker was there when all names were given. -/
theorem named_of_mem_walkAll (hi : i ∈ d'.hierarchy.walkAll)
    (hk : (d'.hierarchy.kind i).isIndexed = true) (hinvoker : d'.hierarchy.kind i ≠ .invoker) :
    i ∈ d₄.hierarchy.indexed ∧ d₄.hierarchy.kind i = d'.hierarchy.kind i := by
  have howner := hst.sound_finished.orderly.mem_walkAll_iff.1 hi
  have hkind : d₄.hierarchy.kind i = d'.hierarchy.kind i := by
    rw [← hst.enums.kind]
    exact (congrArg Prod.fst (hst.of_enclosed howner hinvoker).2).symm
  refine ⟨Hierarchy.mem_indexed.2 ⟨?_, by rw [hkind, hk]⟩, hkind⟩
  rw [← hst.enums.size]
  refine Hierarchy.lt_size_of_owner_ne ?_
  rwa [← (hst.of_enclosed howner hinvoker).1]

end Stages

end BindingTree

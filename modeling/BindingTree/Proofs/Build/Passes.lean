import BindingTree.Build.Basic
import BindingTree.Proofs.Build.Bootstrap
import BindingTree.Proofs.Build.EnumNesting
import BindingTree.Proofs.Build.Finish
import BindingTree.Proofs.Build.Intake
import BindingTree.Proofs.Build.Invokers

/-! A whole build, taken apart at its passes. A build that succeeds goes through one sound draft
after another, and what each pass does to the draft before it is said by that pass's own lemma. -/

namespace BindingTree

namespace Build

open Relation (ReflTransGen)

variable {heads : List Record.Head} {s : Settings} {d d' : Draft}

/-! ### No invokers before their pass -/

theorem kind_payload?_ne_invoker {c : Content} {payload : Payload} (hc : payload? c = some payload) :
    payload.kind ≠ .invoker := by
  intro hk
  cases c <;> simp only [payload?, Option.some.injEq, reduceCtorEq] at hc <;> subst hc <;> cases hk

/-- Whether no element is an invoker. -/
def NoInvoker (h : Hierarchy) : Prop := ∀ i, h.kind i ≠ .invoker

theorem noInvoker_of_intake (hs : Intake heads d d') (hi : NoInvoker d.hierarchy) :
    NoInvoker d'.hierarchy := by
  refine hs.forall_element (P := fun e => e.kind ≠ .invoker) ?_ (fun _ _ he => he) ?_ hi
  · intro head _ payload name fullName hc
    exact kind_payload?_ne_invoker hc
  · intro f e he
    rw [Element.kind_withFacts]
    exact he

theorem noInvoker_of_support (hs : Support s d d') (hi : NoInvoker d.hierarchy) :
    NoInvoker d'.hierarchy := by
  refine hs.forall_element (P := fun e => e.kind ≠ .invoker) ?_ ?_ (fun _ _ he => he) hi
  · intro name hk
    cases hk
  · intro kind fullName useGlobal hk hkind
    rcases hk with rfl | rfl <;> cases hkind

end Build

open Build
open Relation (ReflTransGen)

/-- The drafts after each pass but the last, up to base types and markers, with the runs between
them and what these do. -/
structure Stages (p : Plan) (rs : List Record) (ingested supported nested named enclosed called
    finished : Draft) : Prop where
  ingest : ingest rs p.blank = .ok () ingested
  sound_ingested : ingested.Sound
  supporting : bootstrap p.settings ingested = .ok () supported
  support : ReflTransGen (Support p.settings) ingested supported
  sound_supported : supported.Sound
  types : TypesNested supported nested.hierarchy
  types_registry : nested.registry = supported.registry
  sound_nested : nested.Sound
  names : nested.hierarchy.walkAll.forM (assignManagedName p.translator) nested = .ok () named
  sound_named : named.Sound
  nesting : nestEnums p.translator named = .ok () enclosed
  enums : EnumsNested named enclosed.hierarchy
  sound_enclosed : enclosed.Sound
  calling : makeInvokers p enclosed = .ok () called
  invokers : InvokersMade enclosed.hierarchy called.hierarchy
  sound_called : called.Sound
  managed : (∀ j, enclosed.hierarchy.owner j ≠ .detached → enclosed.hierarchy.Managed j) →
    ∀ j, called.hierarchy.owner j ≠ .detached → called.hierarchy.Managed j
  finish : Finished called.hierarchy finished.hierarchy
  sound_finished : finished.Sound
  ending : ∃ based, resolveBaseTypes p.settings called = .ok () based ∧ mark based = .ok () finished

variable {p : Plan} {rs : List Record} {d d' : Draft}

theorem sound_blank : p.blank.Sound := ⟨Hierarchy.Orderly.nil, Index.PointsInto.empty⟩

theorem intake_of_ingest (hd : ingest rs p.blank = .ok () d) :
    ReflTransGen (Intake (Record.headsOf rs)) p.blank d :=
  ingest_ok (fun _ hx => hx) hd

/-- What holds of nothing, and is kept while records are taken in and while supporting types are made,
holds once all of these are there. -/
theorem supported_induction {I : Draft → Prop} {s : Settings}
    (hintake : ReflTransGen (Intake (Record.headsOf rs)) p.blank d)
    (hsupport : ReflTransGen (Support s) d d') (blank : I p.blank)
    (intake : ∀ {d d' : Draft}, Intake (Record.headsOf rs) d d' → d.Sound → I d → I d')
    (support : ∀ {d d' : Draft}, Support s d d' → d.Sound → I d → I d') : I d' := by
  obtain ⟨hs, hI⟩ := sound_blank.induction Intake.sound intake hintake blank
  exact (hs.induction Support.sound support hsupport hI).2

/-- The passes up to the nesting of enums. -/
def Plan.enclose (p : Plan) (rs : List Record) : Build Unit := do
  Build.ingest rs
  Build.bootstrap p.settings
  Build.nestTypes
  Build.assignManagedNames p.translator
  Build.nestEnums p.translator

/-- The drafts after each pass up to the nesting of enums, with the runs between them and what these
do. -/
structure Enclosed (p : Plan) (rs : List Record) (ingested supported nested named enclosed : Draft) :
    Prop where
  ingest : ingest rs p.blank = .ok () ingested
  sound_ingested : ingested.Sound
  supporting : bootstrap p.settings ingested = .ok () supported
  support : ReflTransGen (Support p.settings) ingested supported
  sound_supported : supported.Sound
  types : TypesNested supported nested.hierarchy
  types_registry : nested.registry = supported.registry
  sound_nested : nested.Sound
  names : nested.hierarchy.walkAll.forM (assignManagedName p.translator) nested = .ok () named
  sound_named : named.Sound
  nesting : nestEnums p.translator named = .ok () enclosed
  enums : EnumsNested named enclosed.hierarchy
  sound_enclosed : enclosed.Sound

/-- The passes up to the nesting of enums go through one draft after another. -/
theorem enclosed_of_enclose (hd : p.enclose rs p.blank = .ok () d') :
    ∃ d₁ d₂ d₃ d₄, Enclosed p rs d₁ d₂ d₃ d₄ d' := by
  obtain ⟨_, d₁, hingest, hrest₁⟩ := bind_ok.1 hd
  have hintake := intake_of_ingest hingest
  have hs₁ := sound_of_intake hintake sound_blank
  obtain ⟨_, d₂, hbootstrap, hrest₂⟩ := bind_ok.1 hrest₁
  have hsupport := bootstrap_ok hs₁ hbootstrap
  have hs₂ := sound_of_support hsupport hs₁
  obtain ⟨_, d₃, htypes, hrest₃⟩ := bind_ok.1 hrest₂
  have hinvoker : NoInvoker d₂.hierarchy := by
    have hblank : NoInvoker p.blank.hierarchy := by
      intro i hk
      rw [Hierarchy.kind, Hierarchy.element, Hierarchy.node_of_size_le (Nat.zero_le i)] at hk
      cases hk
    exact supported_induction (I := fun d => NoInvoker d.hierarchy) hintake hsupport hblank
      (fun hs _ => noInvoker_of_intake hs) fun hs _ => noInvoker_of_support hs
  obtain ⟨-, h₃, rfl, hnested⟩ := nestTypes_ok hs₂ hinvoker htypes
  have hs₃ : ({ d₂ with hierarchy := h₃ } : Draft).Sound :=
    hs₂.extend hnested.orderly (Nat.le_of_eq hnested.size.symm) fun _ _ => hnested.kind
  obtain ⟨_, d₄, hassign, henums⟩ := bind_ok.1 hrest₃
  obtain ⟨_, _, hh, hnames⟩ := bind_ok.1 hassign
  obtain ⟨rfl, rfl⟩ := hierarchy_ok.1 hh
  have hs₄ : d₄.Sound :=
    sound_of_forM_assign hs₃ (fun _ => hs₃.orderly.lt_size_of_mem_walkAll) hnames
  obtain ⟨-, hs₅, henclosed⟩ := nestEnums_ok hs₄ henums
  exact ⟨d₁, d₂, { d₂ with hierarchy := h₃ }, d₄, hingest, hs₁, hbootstrap, hsupport, hs₂, hnested,
    rfl, hs₃, hnames, hs₄, henums, henclosed, hs₅⟩

/-- The passes that follow the nesting of enums. -/
theorem passes_ok : p.passes rs p.blank = .ok () d' ↔ ∃ d₅, p.enclose rs p.blank = .ok () d₅ ∧
    (do makeInvokers p; resolveBaseTypes p.settings; mark) d₅ = .ok () d' := by
  have hpasses : p.passes rs = (do
      p.enclose rs
      makeInvokers p
      resolveBaseTypes p.settings
      mark) := by
    simp only [Plan.passes, Plan.enclose, bind_assoc]
  rw [hpasses, bind_ok]
  exact ⟨fun ⟨_, d₅, h⟩ => ⟨d₅, h⟩, fun ⟨d₅, h⟩ => ⟨(), d₅, h⟩⟩

/-- A build that succeeds goes through all its stages. -/
theorem stages_of_passes (hd : p.passes rs p.blank = .ok () d') :
    ∃ d₁ d₂ d₃ d₄ d₅ d₆, Stages p rs d₁ d₂ d₃ d₄ d₅ d₆ d' := by
  obtain ⟨d₅, henclose, hrest⟩ := passes_ok.1 hd
  obtain ⟨d₁, d₂, d₃, d₄, he⟩ := enclosed_of_enclose henclose
  obtain ⟨_, d₆, hinvokers, hrest₆⟩ := bind_ok.1 hrest
  obtain ⟨hs₆, hmade, hmanaged⟩ := makeInvokers_ok he.sound_enclosed hinvokers
  obtain ⟨_, d₇, hbases, hmark⟩ := bind_ok.1 hrest₆
  obtain ⟨hs₇, hf₁⟩ := resolveBaseTypes_ok hs₆ hbases
  obtain ⟨hs₈, hf₂⟩ := mark_ok hs₇ hmark
  exact ⟨d₁, d₂, d₃, d₄, d₅, d₆, he.ingest, he.sound_ingested, he.supporting, he.support,
    he.sound_supported, he.types, he.types_registry, he.sound_nested, he.names, he.sound_named,
    he.nesting, he.enums, he.sound_enclosed, hinvokers, hmade, hs₆, hmanaged, hf₁.trans hf₂, hs₈,
    d₇, hbases, hmark⟩

theorem Stages.enclosed {d₁ d₂ d₃ d₄ d₅ d₆ : Draft} (hst : Stages p rs d₁ d₂ d₃ d₄ d₅ d₆ d') :
    Enclosed p rs d₁ d₂ d₃ d₄ d₅ where
  ingest := hst.ingest
  sound_ingested := hst.sound_ingested
  supporting := hst.supporting
  support := hst.support
  sound_supported := hst.sound_supported
  types := hst.types
  types_registry := hst.types_registry
  sound_nested := hst.sound_nested
  names := hst.names
  sound_named := hst.sound_named
  nesting := hst.nesting
  enums := hst.enums
  sound_enclosed := hst.sound_enclosed

theorem Enclosed.namedOver {d₁ d₂ d₃ d₄ : Draft} (he : Enclosed p rs d₁ d₂ d₃ d₄ d') :
    NamedOver d₃.hierarchy.walkAll d₃.hierarchy d₄.hierarchy :=
  namedOver_of_forM he.names

theorem Stages.namedOver {d₁ d₂ d₃ d₄ d₅ d₆ : Draft} (hst : Stages p rs d₁ d₂ d₃ d₄ d₅ d₆ d') :
    NamedOver d₃.hierarchy.walkAll d₃.hierarchy d₄.hierarchy :=
  namedOver_of_forM hst.names

theorem build_ok {h : Hierarchy} (hb : (p.build rs).result = .ok h) :
    ∃ d, p.passes rs p.blank = .ok () d ∧ d.hierarchy = h := by
  unfold Plan.build at hb
  split at hb
  · cases hb
  · split at hb
    next d hd =>
      cases hb
      exact ⟨d, hd, rfl⟩
    next => cases hb

/-- A build reports what was noticed in its passes. -/
theorem notices_of_build {h : Hierarchy} (hb : (p.build rs).result = .ok h)
    (hd : p.passes rs p.blank = .ok () d) : (p.build rs).notices = d.registry.log := by
  unfold Plan.build at hb ⊢
  split
  next hempty =>
    rw [if_pos hempty] at hb
    cases hb
  next => rw [hd]

/-! ### A small description -/

/-- A record with nothing to it but its kind, its name and its children. -/
def Record.plain (content : Content) (name : String) (children : List Record) : Record :=
  ⟨{ content, name }, children⟩

/-- Types that nest by name, an interface and its implementation, and enums with and without a
qualifier. -/
def sampleRecords : List Record :=
  [.plain (.ns {}) "a.b"
    [.plain (.cls {}) "Outer" [.plain (.method {}) "run" [.plain (.param {}) "p" []]],
      .plain (.cls {}) "Outer.Inner" [.plain (.implements {}) "a.b.Face" []],
      .plain (.iface {}) "Face" [.plain (.field {}) "LIMIT" []]],
    .plain (.enum {}) "a.b.Outer.Mode" [.plain (.field {}) "ON" []],
    .plain (.enum {}) "Lone" []]

/-- A plan that goes by the settings' defaults. -/
def samplePlan : Plan := .ofSettings {}

theorem isBuiltIn_samplePlan : samplePlan.translator.IsBuiltIn := ⟨true, .inr ⟨true, rfl⟩⟩

/-- What a test finds of the result of a build, the build's hierarchy has. -/
theorem exists_built (p : Plan) (rs : List Record) (Q : Hierarchy → Bool)
    (hq : (p.build rs).result.toOption.any Q = true) :
    ∃ h, (p.build rs).result = .ok h ∧ Q h = true := by
  cases hb : (p.build rs).result with
  | ok h =>
    rw [hb] at hq
    exact ⟨h, rfl, hq⟩
  | error failure =>
    rw [hb] at hq
    cases hq

/-- Whether a run succeeds, and ends in a draft that passes a test. -/
def Build.endsIn (m : Build Unit) (d : Draft) (Q : Draft → Bool) : Bool :=
  match m d with
  | .ok _ d' => Q d'
  | .error _ _ => false

/-- What a test finds of the draft in which a run ends, the draft has. -/
theorem exists_run (m : Build Unit) (d : Draft) (Q : Draft → Bool) (hq : endsIn m d Q = true) :
    ∃ d', m d = .ok () d' ∧ Q d' = true := by
  unfold endsIn at hq
  split at hq
  next d' hd => exact ⟨d', hd, hq⟩
  next => cases hq

/-- A failure that a test finds to be the result of a build is its result. -/
theorem build_fails (p : Plan) (rs : List Record) (failure : Failure)
    (hf : (match (p.build rs).result with
      | .error failure' => decide (failure' = failure)
      | .ok _ => false) = true) : (p.build rs).result = .error failure := by
  split at hf
  next he => rw [he, of_decide_eq_true hf]
  next => cases hf

end BindingTree

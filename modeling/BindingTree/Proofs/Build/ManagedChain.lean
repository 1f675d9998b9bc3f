import BindingTree.Proofs.Build.Passes

/-! Managed names at the end of a build. Every element that is reached is managed from the pass that
names it on; nesting enums and making invokers keep that up, and the last passes leave it alone. The
names that are given are those of records and settings, which are not empty. -/

namespace BindingTree

open Build Naming

/-- Every managed name that is given in the hierarchy is one that `P` holds of. -/
def AllGiven (P : String → Prop) (h : Hierarchy) : Prop :=
  ∀ i m, (h.element i).givenName = some m → P m

/-- Every managed name that records and settings give is one that `P` holds of. -/
structure Plan.Gives (p : Plan) (rs : List Record) (P : String → Prop) : Prop where
  records : ∀ head ∈ Record.headsOf rs, ∀ m, head.managedName = some m → m ≠ "" → P m
  settings : p.settings.runtimeNamespace ≠ "" → P p.settings.runtimeNamespace

variable {p : Plan} {rs : List Record} {h : Hierarchy} {i j : ElementId} {s : Settings}
  {heads : List Record.Head} {d d' d₁ d₂ d₃ d₄ d₅ d₆ : Draft} {P : String → Prop}

/-! ### Given names -/

theorem given_ofHead {head : Record.Head} (hg : ∀ m, head.managedName = some m → m ≠ "" → P m)
    (payload : Payload) (name fullName : String) :
    ∀ m, (ofHead head payload name fullName).givenName = some m → P m := by
  intro m hm
  change head.managedName.filter (· ≠ "") = some m at hm
  obtain ⟨hm, hne⟩ := Option.filter_eq_some_iff.1 hm
  exact hg m hm (of_decide_eq_true hne)

theorem allGiven_of_intake
    (hheads : ∀ head ∈ heads, ∀ m, head.managedName = some m → m ≠ "" → P m)
    (hs : Intake heads d d') (hg : AllGiven P d.hierarchy) : AllGiven P d'.hierarchy := by
  refine hs.forall_element (P := fun e => ∀ m, e.givenName = some m → P m) ?_
    (fun _ _ he => he) ?_ hg
  · intro head hm payload name fullName _
    exact given_ofHead (hheads head hm) payload name fullName
  · intro f e he
    rw [Element.givenName_of_managed (Element.managed_withFacts f e)]
    exact he

theorem allGiven_of_support (hname : s.runtimeNamespace ≠ "" → P s.runtimeNamespace)
    (hs : Support s d d') (hg : AllGiven P d.hierarchy) : AllGiven P d'.hierarchy := by
  refine hs.forall_element (P := fun e => ∀ m, e.givenName = some m → P m) ?_ ?_ ?_ hg
  · intro name m he
    cases he
  · intro kind fullName useGlobal _ m he
    cases he
  · intro e hne _ m he
    cases he
    exact hname hne

theorem allGiven_blank : AllGiven P p.blank.hierarchy := by
  intro j m
  rw [Hierarchy.element, Hierarchy.node_of_size_le (Nat.zero_le j)]
  intro he
  cases he

/-! ### From pass to pass -/

namespace Enclosed

variable (he : Enclosed p rs d₁ d₂ d₃ d₄ d₅)
include he

/-- The given names once all records are taken in and all supporting types are there. -/
theorem allGiven_nested (hg : p.Gives rs P) : AllGiven P d₃.hierarchy := by
  have hsupported : AllGiven P d₂.hierarchy :=
    supported_induction (I := fun d => AllGiven P d.hierarchy) (intake_of_ingest he.ingest)
      he.support allGiven_blank (fun hs _ => allGiven_of_intake hg.records hs) fun hs _ =>
        allGiven_of_support hg.settings hs
  intro j
  obtain ⟨name, hname⟩ := he.types.named j
  rw [hname]
  exact hsupported j

theorem allGiven (hg : p.Gives rs P) : AllGiven P d₅.hierarchy := by
  intro i
  rw [he.enums.given, he.namedOver.given]
  exact he.allGiven_nested hg i

theorem managed_named (hj : d₄.hierarchy.owner j ≠ .detached) : d₄.hierarchy.Managed j := by
  have ho := he.sound_nested.orderly
  rw [he.namedOver.owner, ← ho.mem_walkAll_iff] at hj
  exact managed_of_forM ho (fun _ => ho.lt_size_of_mem_walkAll) ho.pairwise_walkAll he.names j hj

theorem managed (hj : d₅.hierarchy.owner j ≠ .detached) : d₅.hierarchy.Managed j :=
  he.enums.managed (fun _ => he.managed_named) j hj

end Enclosed

theorem Stages.managed_finished {d₇ : Draft} (hst : Stages p rs d₁ d₂ d₃ d₄ d₅ d₆ d₇)
    (hj : d₇.hierarchy.owner j ≠ .detached) : d₇.hierarchy.Managed j := by
  have hj₆ : d₆.hierarchy.owner j ≠ .detached := hst.finish.owner hj ▸ hj
  exact hst.finish.kept_managed hj (hst.managed (fun _ => hst.enclosed.managed) j hj₆)

end BindingTree

import BindingTree.Proofs.Build.EnumRounds
import BindingTree.Proofs.Build.ManagedChain

/-! Managed names as renderings of native ones. From the pass that gives managed names on, the
managed name of an element is what the translator makes of its native name, its kind and the name
that is given for it. None of these changes when an enum is nested, so an enum keeps its managed
name, and only what stands before it in the full managed name is new. And if the translator has no empty
answers, no managed name is empty. -/

namespace BindingTree

open Build Naming
open Relation (ReflTransGen)

/-- An element whose managed name, if it has one, is what the translator makes of it. -/
def Element.Renders (t : Translator) (e : Element) : Prop :=
  ∀ m, e.managedName = some m → managedNameOf t e = .ok m

/-- Every managed name is what the translator makes of its element. -/
def Rendered (t : Translator) (h : Hierarchy) : Prop := ∀ i, (h.element i).Renders t

variable {p : Plan} {rs : List Record} {t : Translator} {d d' d₁ d₂ d₃ d₄ d₅ d₆ : Draft}
  {h : Hierarchy} {i : ElementId} {is : List ElementId} {e e' : Element} {P : String → Prop}

theorem Build.managedNameOf_congr (hk : e'.kind = e.kind) (hn : e'.name = e.name)
    (hg : e'.givenName = e.givenName) : managedNameOf t e' = managedNameOf t e := by
  rw [managedNameOf, managedNameOf, hk, hn, hg]

theorem Element.Renders.congr (hr : e.Renders t) (hn : e'.native = e.native)
    (hm : e'.managed = e.managed) : e'.Renders t := by
  intro m hm'
  rw [managedNameOf_congr (congrArg Prod.fst hn) (Hierarchy.name_of_native hn)
    (givenName_of_managed hm)]
  exact hr m ((congrArg Prod.fst hm).symm.trans hm')

namespace Build

/-! ### Passes that give managed names -/

theorem rendered_of_assign (hr : Rendered t d.hierarchy)
    (hd : assignManagedName t i d = .ok () d') : Rendered t d'.hierarchy := by
  obtain ⟨managed, r, hname, rfl, -⟩ := assignManagedName_ok hd
  intro j
  dsimp only
  rw [Hierarchy.element_modify]
  split
  next hj =>
    obtain ⟨rfl, -⟩ := hj
    intro m hm
    cases hm
    exact hname
  next => exact hr j

theorem rendered_of_forM_assign (hr : Rendered t d.hierarchy)
    (hd : is.forM (assignManagedName t) d = .ok () d') : Rendered t d'.hierarchy :=
  forM_ok (I := fun _ d => Rendered t d.hierarchy) (fun _ _ _ _ => rendered_of_assign) hr hd

theorem rendered_of_rename (hr : Rendered t d.hierarchy) (hd : renameEnum t i d = .ok () d') :
    Rendered t d'.hierarchy := by
  obtain ⟨r, -, hnames⟩ := renameEnum_ok hd
  have hfully : Rendered t (fullyNamed d.hierarchy i) := by
    unfold Rendered fullyNamed
    exact Hierarchy.forall_element_modify (fun _ he => he) hr
  exact rendered_of_forM_assign (d := ⟨fullyNamed d.hierarchy i, r⟩) hfully hnames

theorem rendered_of_nestEnums (hs : d.Sound) (hr : Rendered t d.hierarchy)
    (hd : nestEnums t d = .ok () d') : Rendered t d'.hierarchy := by
  obtain ⟨-, h, hmade, hrename⟩ := nestEnums_moves hs hd
  have hmoved : Rendered t h := fun j => by
    rw [(Moves.sameElements_makeAll hmade).element]
    exact hr j
  exact forM_ok (I := fun _ d => Rendered t d.hierarchy) (fun _ _ _ _ => rendered_of_rename)
    hmoved hrename

theorem rendered_of_makeInvoker (hr : Rendered p.translator d.hierarchy)
    (hd : makeInvoker p i d = .ok () d') : Rendered p.translator d'.hierarchy := by
  obtain ⟨q, d₁, r, -, hassign, -, rfl⟩ := makeInvoker_ok hd
  have hbeside : Rendered p.translator (besideInterface p d.hierarchy q i) :=
    Hierarchy.Fresh.putBelow.forall_element (fun m hm => by cases hm) hr
  exact Hierarchy.forall_element_modify
    (fun e he => he.congr (Element.native_withFacts _ e) (Element.managed_withFacts _ e))
    (rendered_of_assign
      (d := { d with hierarchy := besideInterface p d.hierarchy q i }) hbeside hassign)

theorem given_of_makeInvoker {Q : Kind → Option String → Prop} (hnew : Q .invoker none)
    (hq : ∀ j, Q (d.hierarchy.kind j) (d.hierarchy.element j).givenName)
    (hd : makeInvoker p i d = .ok () d') :
    ∀ j, Q (d'.hierarchy.kind j) (d'.hierarchy.element j).givenName := by
  obtain ⟨q, d₁, r, -, hassign, -, rfl⟩ := makeInvoker_ok hd
  have hbeside : ∀ j, Q ((besideInterface p d.hierarchy q i).kind j)
      ((besideInterface p d.hierarchy q i).element j).givenName :=
    Hierarchy.Fresh.putBelow.forall_element (P := fun e => Q e.kind e.givenName) hnew hq
  have hnamed := namedOver_of_assign hassign
  refine Hierarchy.forall_element_modify (P := fun e => Q e.kind e.givenName) (fun e he => ?_)
    fun j => ?_
  · rwa [Element.kind_withFacts, Element.givenName_of_managed (Element.managed_withFacts _ e)]
  · have hkind : (d₁.hierarchy.element j).kind = (besideInterface p d.hierarchy q i).kind j :=
      congrFun hnamed.kind j
    rw [hkind, hnamed.given j]
    exact hbeside j

end Build

/-! ### From pass to pass -/

namespace Enclosed

variable (he : Enclosed p rs d₁ d₂ d₃ d₄ d₅)
include he

theorem rendered_named : Rendered p.translator d₄.hierarchy := by
  refine rendered_of_forM_assign (fun i m hm => ?_) he.names
  cases (he.unmanaged_nested i).name.symm.trans hm

theorem rendered : Rendered p.translator d₅.hierarchy :=
  rendered_of_nestEnums he.sound_named he.rendered_named he.nesting

/-- No managed name changes when enums are nested. -/
theorem managedName_kept (hi : i ∈ d₄.hierarchy.walkAll) :
    (d₅.hierarchy.element i).managedName = (d₄.hierarchy.element i).managedName := by
  have hatt := he.sound_named.orderly.mem_walkAll_iff.1 hi
  have hatt₅ : d₅.hierarchy.owner i ≠ .detached := by
    rcases he.enums.stayed_or_moved i with ⟨howner, -⟩ | ⟨q, hroot, hq⟩
    · exact howner ▸ hatt
    · simp [(he.enums.moved hroot hq).1]
  obtain ⟨m, hm, -⟩ := he.managed_named hatt
  obtain ⟨m', hm', -⟩ := he.managed hatt₅
  have hsame : managedNameOf p.translator (d₅.hierarchy.element i) =
      managedNameOf p.translator (d₄.hierarchy.element i) :=
    managedNameOf_congr (congrFun he.enums.kind i) (he.enums.name i) (he.enums.given i)
  have hboth := ((he.rendered i m' hm').symm.trans hsame).trans (he.rendered_named i m hm)
  rw [hm, hm', Except.ok.inj hboth]

/-- The full managed name of an enum at the top is its managed name. -/
theorem managedName_rootEnum (hi : i ∈ d₄.hierarchy.rootEnums) :
    (d₅.hierarchy.element i).managedName = some (d₄.hierarchy.called .managed i) := by
  have ho := he.sound_named.orderly
  have hroot := (ho.mem_rootEnums.1 hi).2
  have hatt : d₄.hierarchy.owner i ≠ .detached := by simp [hroot]
  obtain ⟨m, hm, hfull⟩ := he.managed_named hatt
  rw [he.managedName_kept (ho.mem_walkAll_iff.2 hatt), hm, Hierarchy.called, Table.nameOf,
    Element.fullManagedText, hfull, hroot, Option.getD_some]
  rfl

end Enclosed

namespace Stages

variable (hst : Stages p rs d₁ d₂ d₃ d₄ d₅ d₆ d')
include hst

theorem rendered_finished : Rendered p.translator d'.hierarchy := by
  obtain ⟨_, _, hh, hmake⟩ := bind_ok.1 hst.calling
  obtain ⟨rfl, rfl⟩ := hierarchy_ok.1 hh
  have hcalled := forM_ok (I := fun _ d => Rendered p.translator d.hierarchy)
    (fun _ _ _ _ => rendered_of_makeInvoker) hst.enclosed.rendered hmake
  exact fun j => (hcalled j).congr (hst.finish.native j) (hst.finish.managed j)

/-- What holds of each element's kind and given name, and of an invoker without one, goes on to
hold. -/
theorem forall_given_finished {Q : Kind → Option String → Prop} (hnew : Q .invoker none)
    (hq : ∀ j, Q (d₅.hierarchy.kind j) (d₅.hierarchy.element j).givenName) :
    ∀ j, Q (d'.hierarchy.kind j) (d'.hierarchy.element j).givenName := by
  obtain ⟨_, _, hh, hmake⟩ := bind_ok.1 hst.calling
  obtain ⟨rfl, rfl⟩ := hierarchy_ok.1 hh
  have hcalled := forM_ok
    (I := fun _ d => ∀ j, Q (d.hierarchy.kind j) (d.hierarchy.element j).givenName)
    (fun _ _ _ _ hj hd => given_of_makeInvoker hnew hj hd) hq hmake
  intro j
  have hkind : d'.hierarchy.kind j = d₆.hierarchy.kind j := congrArg Prod.fst (hst.finish.native j)
  rw [hkind, Element.givenName_of_managed (hst.finish.managed j)]
  exact hcalled j

theorem allGiven_finished (hg : p.Gives rs P) : AllGiven P d'.hierarchy :=
  hst.forall_given_finished (Q := fun _ g => ∀ m, g = some m → P m) (fun _ hm => by cases hm)
    (hst.enclosed.allGiven hg)

/-- No managed name is empty, as none is that is given. -/
theorem managedName_ne_empty (ht : p.translator.NeverEmpty) :
    (d'.hierarchy.element i).managedName ≠ some "" := by
  intro hm
  have hall : AllGiven (· ≠ "") d'.hierarchy := hst.allGiven_finished ⟨fun _ _ _ _ hne => hne, id⟩
  exact managedNameOf_ne_empty ht (fun hg => hall i "" hg rfl) (hst.rendered_finished i "" hm) rfl

end Stages

/-! ### In the end -/

/-- If the translator has no empty answers, then at the end of a build every element of the hierarchy has
a managed name, and its full managed name is the chain of the managed names from the top down. -/
theorem managed_of_build (ht : p.translator.NeverEmpty) (hb : (p.build rs).result = .ok h)
    (hi : i ∈ h.walkAll) :
    ∃ m, m ≠ "" ∧ (h.element i).managedName = some m ∧
      (h.element i).fullManagedName = some (h.chainManagedName i) := by
  obtain ⟨d, hd, rfl⟩ := build_ok hb
  obtain ⟨d₁, d₂, d₃, d₄, d₅, d₆, hst⟩ := stages_of_passes hd
  have ho := hst.sound_finished.orderly
  have hatt := ho.mem_walkAll_iff.1 hi
  obtain ⟨m, hname, -⟩ := hst.managed_finished hatt
  refine ⟨m, fun hempty => hst.managedName_ne_empty ht (hempty ▸ hname), hname, ?_⟩
  exact Hierarchy.fullManagedName_eq_chain ho.toGrounded
    (fun j hj => hst.managed_finished (ho.attached_of_covers hj hatt))
    fun j _ => hst.managedName_ne_empty ht

/-- The field of an enum that is nested under a class. -/
theorem managed_of_sample : samplePlan.translator.NeverEmpty ∧
    ∃ h, (samplePlan.build sampleRecords).result = .ok h ∧ 9 ∈ h.walkAll ∧
      ∃ m, m ≠ "" ∧ (h.element 9).managedName = some m ∧
        (h.element 9).fullManagedName = some (h.chainManagedName 9) := by
  have ht : samplePlan.translator.NeverEmpty := isBuiltIn_samplePlan.neverEmpty
  obtain ⟨h, hb, hq⟩ := exists_built samplePlan sampleRecords
    (fun h => decide (9 ∈ h.walkAll)) (by decide +kernel)
  have hmem : 9 ∈ h.walkAll := of_decide_eq_true hq
  exact ⟨ht, h, hb, hmem, managed_of_build ht hb hmem⟩

/-- A plan whose translator has an empty answer for every name but those of fields. -/
def blankPlan : Plan :=
  { samplePlan with translator := { samplePlan.translator with translate _ := .ok "" } }

/-- Empty answers are taken as they are, and full managed names pass over them. -/
theorem empty_of_blank : ¬ blankPlan.translator.NeverEmpty ∧
    ∃ h, (blankPlan.build sampleRecords).result = .ok h ∧ 7 ∈ h.walkAll ∧
      (h.element 6).managedName = some "" ∧ (h.element 7).fullManagedName = some "LIMIT" ∧
        h.chainManagedName 7 = "..LIMIT" := by
  have hanswer : blankPlan.translator.translate "a" = .ok "" := rfl
  refine ⟨fun ht => ht.translate hanswer rfl, ?_⟩
  obtain ⟨h, hb, hq⟩ := exists_built blankPlan sampleRecords
    (fun h => decide (7 ∈ h.walkAll ∧ (h.element 6).managedName = some "" ∧
      (h.element 7).fullManagedName = some "LIMIT" ∧ h.chainManagedName 7 = "..LIMIT"))
    (by decide +kernel)
  exact ⟨h, hb, of_decide_eq_true hq⟩

end BindingTree

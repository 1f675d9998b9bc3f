import BindingTree.Proofs.Build.InvokerPairs
import BindingTree.Proofs.Build.Renderings
import BindingTree.Proofs.Naming.Marks

/-! The managed names of interfaces and their invokers. Where no record gives a managed name, only
namespaces have one given, so any other managed name is translated from the native name of its
element. An interface and its invoker stand in one place, so their full managed names are as far apart
as the two marks put them. -/

namespace BindingTree

open Build Naming
open Relation (ReflTransGen)

/-- No record gives a managed name. -/
def Record.Ungiven (rs : List Record) : Prop :=
  ∀ head ∈ Record.headsOf rs, head.managedName.getD "" = ""

/-- An element that has no managed name given, unless it is a namespace. -/
def Element.Ungiven (e : Element) : Prop := e.kind ≠ .ns → e.givenName = none

/-- None but namespaces has a managed name given. -/
def AllUngiven (h : Hierarchy) : Prop := ∀ i, (h.element i).Ungiven

variable {p : Plan} {rs : List Record} {s : Settings} {t : Translator} {heads : List Record.Head}
  {d d' d₁ d₂ d₃ d₄ d₅ d₆ : Draft} {h : Hierarchy} {i j : ElementId} {is : List ElementId}
  {e e' : Element} {m : String}

/-! ### Given names -/

namespace Element

theorem Ungiven.congr (he : e.Ungiven) (hk : e'.kind = e.kind) (hg : e'.givenName = e.givenName) :
    e'.Ungiven := fun hne => hg.trans (he (hk ▸ hne))

theorem Ungiven.withFacts (he : e.Ungiven) (f : TypeFacts → TypeFacts) : (e.withFacts f).Ungiven :=
  he.congr (kind_withFacts f e) (givenName_of_managed (managed_withFacts f e))

theorem ungiven_ofHead {head : Record.Head} (hg : head.managedName.getD "" = "")
    (payload : Payload) (name fullName : String) : (ofHead head payload name fullName).Ungiven := by
  intro _
  change head.managedName.filter (· ≠ "") = none
  cases hm : head.managedName with
  | none => rfl
  | some m => simpa [hm, Option.filter] using hg

end Element

theorem allUngiven_of_intake (hst : Intake heads d d')
    (hg : ∀ x ∈ heads, x.managedName.getD "" = "") (hu : AllUngiven d.hierarchy) :
    AllUngiven d'.hierarchy := by
  refine hst.forall_element (P := Element.Ungiven) ?_ (fun _ _ he => he.congr rfl rfl)
    (fun _ _ he => he.withFacts _) hu
  intro head hm payload name fullName _
  exact Element.ungiven_ofHead (hg head hm) payload name fullName

theorem allUngiven_of_makeNamespace {name : String} (hd : makeNamespace name d = .ok i d')
    (hu : AllUngiven d.hierarchy) : AllUngiven d'.hierarchy ∧ d'.hierarchy.kind i = .ns := by
  obtain ⟨rfl, r, -, rfl⟩ := makeNamespace_ok hd
  refine ⟨Hierarchy.Fresh.putNamespace.forall_element (fun _ => rfl) hu, ?_⟩
  rw [Hierarchy.Fresh.putNamespace.kind_new]
  rfl

theorem allUngiven_of_makeType {kind : TypeKind} {fullName : String} {useGlobal : Bool}
    (hd : makeType i kind fullName useGlobal d = .ok () d') (hu : AllUngiven d.hierarchy) :
    AllUngiven d'.hierarchy := by
  obtain ⟨r, -, rfl⟩ := makeType_ok hd
  exact Hierarchy.Fresh.putBelow.forall_element (fun _ => rfl) hu

theorem allUngiven_of_runtimeNamespace {name : String} (hd : runtimeNamespace name d = .ok i d')
    (hu : AllUngiven d.hierarchy) : AllUngiven d'.hierarchy := by
  obtain ⟨_, _, hh, hrest⟩ := bind_ok.1 hd
  obtain ⟨rfl, rfl⟩ := hierarchy_ok.1 hh
  cases hfound : d.hierarchy.findNamespaceIgnoringCase? name with
  | some found =>
    simp only [hfound] at hrest
    obtain ⟨rfl, rfl⟩ := pure_ok.1 hrest
    exact hu
  | none =>
    simp only [hfound] at hrest
    obtain ⟨ns, d₁, hmake, hrest⟩ := bind_ok.1 hrest
    obtain ⟨hu₁, hk⟩ := allUngiven_of_makeNamespace hmake hu
    obtain ⟨_, _, hedit, hrest⟩ := bind_ok.1 hrest
    obtain rfl := editElement_ok.1 hedit
    obtain ⟨rfl, rfl⟩ := pure_ok.1 hrest
    -- Only the namespace itself has a name given.
    intro j
    dsimp only
    rw [Hierarchy.element_modify]
    split
    next hj =>
      obtain ⟨rfl, -⟩ := hj
      exact fun hne => absurd hk hne
    next => exact hu₁ j

theorem allUngiven_of_rootNamespace {name : String} (hd : rootNamespace name d = .ok i d')
    (hu : AllUngiven d.hierarchy) : AllUngiven d'.hierarchy := by
  unfold rootNamespace at hd
  cases hq : (splitLast name).1 with
  | some qualifier =>
    simp only [hq] at hd
    obtain ⟨_, _, hh, hrest⟩ := bind_ok.1 hd
    obtain ⟨rfl, rfl⟩ := hierarchy_ok.1 hh
    cases hfound : d.hierarchy.findNamespace? qualifier with
    | some found =>
      simp only [hfound] at hrest
      obtain ⟨rfl, rfl⟩ := pure_ok.1 hrest
      exact hu
    | none =>
      simp only [hfound] at hrest
      exact (allUngiven_of_makeNamespace hrest hu).1
  | none =>
    simp only [hq] at hd
    exact (allUngiven_of_makeNamespace hd hu).1

theorem allUngiven_of_bootstrap (hd : bootstrap s d = .ok () d') (hu : AllUngiven d.hierarchy) :
    AllUngiven d'.hierarchy := by
  obtain ⟨ns, d₁, hns, hrest⟩ := bind_ok.1 hd
  have hu₁ := allUngiven_of_runtimeNamespace hns hu
  obtain ⟨_, _, hh, hbase⟩ := bind_ok.1 hrest
  obtain ⟨rfl, rfl⟩ := hierarchy_ok.1 hh
  have hroot : ∃ d₂, AllUngiven d₂.hierarchy ∧
      (if s.makeRootType then ensureRootType s.rootType else pure ()) d₂ = .ok () d' := by
    split at hbase
    · exact ⟨d₁, hu₁, hbase⟩
    · obtain ⟨_, d₂, htype, hroot⟩ := bind_ok.1 hbase
      exact ⟨d₂, allUngiven_of_makeType htype hu₁, hroot⟩
  obtain ⟨d₂, hu₂, hroot⟩ := hroot
  split at hroot
  · obtain ⟨_, _, hindex, hensure⟩ := bind_ok.1 hroot
    obtain ⟨rfl, rfl⟩ := index_ok.1 hindex
    split at hensure
    · obtain ⟨-, rfl⟩ := pure_ok.1 hensure
      exact hu₂
    · obtain ⟨ns, d₃, hplace, hmake⟩ := bind_ok.1 hensure
      exact allUngiven_of_makeType hmake (allUngiven_of_rootNamespace hplace hu₂)
  · obtain ⟨-, rfl⟩ := pure_ok.1 hroot
    exact hu₂

namespace Stages

variable (hst : Stages p rs d₁ d₂ d₃ d₄ d₅ d₆ d') (hg : Record.Ungiven rs)
include hst hg

theorem allUngiven_enclosed : AllUngiven d₅.hierarchy := by
  have hblank : AllUngiven p.blank.hierarchy := fun j => by
    rw [Hierarchy.element, Hierarchy.node_of_size_le (Nat.zero_le j)]
    exact fun _ => rfl
  have hingested := (sound_blank.induction (I := fun d => AllUngiven d.hierarchy) Intake.sound
    (fun hstep _ => allUngiven_of_intake hstep hg) (intake_of_ingest hst.ingest) hblank).2
  have hsupported := allUngiven_of_bootstrap hst.supporting hingested
  intro j
  have hnested : (d₃.hierarchy.element j).Ungiven := by
    obtain ⟨name, hname⟩ := hst.types.named j
    rw [hname]
    exact (hsupported j).congr rfl rfl
  have hnamed : (d₄.hierarchy.element j).Ungiven :=
    hnested.congr (congrFun hst.namedOver.kind j) (hst.namedOver.given j)
  exact hnamed.congr (congrFun hst.enums.kind j) (hst.enums.given j)

theorem allUngiven_finished : AllUngiven d'.hierarchy :=
  hst.forall_given_finished (Q := fun k g => k ≠ .ns → g = none) (fun _ => rfl)
    (hst.allUngiven_enclosed hg)

end Stages

/-- Without given names, and with a built-in translator, an invoker and its interface have one full
managed name just when the native name of the interface has the invokers' suffix already and the
translation of that name the interfaces' mark. -/
theorem fullManagedName_invoker_eq_iff (hg : Record.Ungiven rs) (ht : p.translator.IsBuiltIn)
    (hb : (p.build rs).result = .ok h) (hj : (h.element i).invoker? = some j) :
    (h.element j).fullManagedName = (h.element i).fullManagedName ↔
      invokerSuffix <:+ (h.element i).name.toList ∧
        ∃ m, p.translator.translate (h.element i).name = .ok m ∧ interfaceName m = m := by
  obtain ⟨d, hd, rfl⟩ := build_ok hb
  obtain ⟨d₁, d₂, d₃, d₄, d₅, d₆, hst⟩ := stages_of_passes hd
  obtain ⟨tk, facts, hp, hlink⟩ := Element.of_invoker? hj
  obtain ⟨n, hn, rfl⟩ := hst.lacking_of_invoker hp hlink
  have hcalls := hst.calls hn
  have ho := hst.sound_finished.orderly
  obtain ⟨hbeside, q, howner⟩ := hcalls.beside
  obtain ⟨mi, hmi, hfulli⟩ := hst.managed_finished (ho.mem_walkAll_iff.1 hcalls.reached.1)
  obtain ⟨mj, hmj, hfullj⟩ := hst.managed_finished (ho.mem_walkAll_iff.1 hcalls.reached.2)
  -- Both names are translated, the one with the mark and the other with the suffix.
  have hungiven := hst.allUngiven_finished hg
  obtain ⟨_, hpi, -⟩ := hcalls.callee
  obtain ⟨_, hpj, -⟩ := hcalls.caller
  have hki : (d.hierarchy.element i).kind = .iface := congrArg Payload.kind hpi
  have hkj : (d.hierarchy.element (d₅.hierarchy.size + n)).kind = .invoker :=
    congrArg Payload.kind hpj
  have hri := hst.rendered_finished i mi hmi
  have hrj := hst.rendered_finished _ mj hmj
  rw [managedNameOf, hungiven i (by simp [hki]), hki] at hri
  rw [managedNameOf, hungiven _ (by simp [hkj]), hkj, hcalls.name] at hrj
  obtain ⟨managed, hmanaged, rfl⟩ := Except.map_eq_ok.1 hri
  obtain ⟨invoker, hinvoker, rfl⟩ := Except.map_eq_ok.1 hrj
  rw [hfulli, hfullj, hbeside, howner]
  have hne := (hst.managed_finished (ho.owner_ne_detached_of_owns howner)).fullManagedText_ne_empty
    (hst.managedName_ne_empty ht.neverEmpty)
  simp only [Hierarchy.composeFullManagedName_element hne, Option.some.injEq,
    String.append_right_inj]
  rw [invokerName_eq_interfaceName_iff ht hmanaged hinvoker, hmanaged]
  simp

/-- An interface with a plain name, and one whose name has both marks. -/
def markedRecords : List Record :=
  [.plain (.ns {}) "a" [.plain (.iface {}) "Face" [], .plain (.iface {}) "IFaceInvoker" []]]

theorem ungiven_marked : Record.Ungiven markedRecords := by
  unfold Record.Ungiven
  decide +kernel

/-- The invoker of an interface with a plain name has a name of its own. -/
theorem fullManagedName_invoker_of_marked : ∃ h,
    (samplePlan.build markedRecords).result = .ok h ∧ (h.element 1).invoker? = some 7 ∧
      (h.element 7).fullManagedName ≠ (h.element 1).fullManagedName := by
  obtain ⟨h, hb, hq⟩ := exists_built samplePlan markedRecords
    (fun h => decide ((h.element 1).invoker? = some 7) &&
      decide (¬ invokerSuffix <:+ (h.element 1).name.toList)) (by decide +kernel)
  simp only [Bool.and_eq_true, decide_eq_true_eq] at hq
  obtain ⟨hj, hs⟩ := hq
  refine ⟨h, hb, hj, fun he => hs ?_⟩
  exact ((fullManagedName_invoker_eq_iff ungiven_marked isBuiltIn_samplePlan hb hj).1 he).1

/-- An interface whose name has both marks shares it with its invoker. -/
theorem fullManagedName_shared : Record.Ungiven markedRecords ∧ samplePlan.translator.IsBuiltIn ∧
    ∃ h, (samplePlan.build markedRecords).result = .ok h ∧ (h.element 2).invoker? = some 8 ∧
      (h.element 2).fullManagedName = some "A.IFaceInvoker" ∧
        (h.element 8).fullManagedName = some "A.IFaceInvoker" := by
  obtain ⟨h, hb, hq⟩ := exists_built samplePlan markedRecords
    (fun h => decide ((h.element 2).invoker? = some 8) &&
      decide ((h.element 2).fullManagedName = some "A.IFaceInvoker") &&
        decide ((h.element 8).fullManagedName = some "A.IFaceInvoker")) (by decide +kernel)
  simp only [Bool.and_eq_true, decide_eq_true_eq] at hq
  exact ⟨ungiven_marked, isBuiltIn_samplePlan, h, hb, hq.1.1, hq.1.2, hq.2⟩

end BindingTree

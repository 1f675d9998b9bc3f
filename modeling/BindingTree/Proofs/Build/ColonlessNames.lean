import BindingTree.Proofs.Build.Calls
import BindingTree.Proofs.Build.FullNames

/-! Names without colons. If neither records nor settings name anything with a colon, then no native
name of an element has one, from the first pass to the last: names are taken apart at dots, put
together with dots, or extended by the suffix of invokers. So no name can pass for a key with a
kind. -/

namespace BindingTree

open Build Naming
open Relation (ReflTransGen)

/-- No native name of an element has a colon. -/
def Element.Colonless (e : Element) : Prop := Naming.Colonless e.name ∧ Naming.Colonless e.fullName

def Hierarchy.Colonless (h : Hierarchy) : Prop := ∀ i, (h.element i).Colonless

variable {p : Plan} {rs : List Record} {s : Settings} {heads : List Record.Head}
  {d d' d₁ d₂ d₃ d₄ d₅ d₆ : Draft} {h h' : Hierarchy} {i : ElementId} {e e' : Element}
  {owner : String} {is : List ElementId}

theorem Element.Colonless.of_native (hc : e.Colonless) (hn : e'.native = e.native) :
    e'.Colonless := by
  have hname : e'.name = e.name := congrArg (fun n : Kind × String × String × Bool => n.2.1) hn
  have hfull : e'.fullName = e.fullName :=
    congrArg (fun n : Kind × String × String × Bool => n.2.2.1) hn
  unfold Element.Colonless
  rw [hname, hfull]
  exact hc

theorem Hierarchy.Colonless.same (hc : h.Colonless) (hs : h.SameNative h') : h'.Colonless :=
  fun i => (hc i).of_native (hs.native i)

theorem Hierarchy.Colonless.fresh {o : Owner} (hc : h.Colonless) (hf : h.Fresh h' o e)
    (he : e.Colonless) : h'.Colonless :=
  hf.forall_element (P := Element.Colonless) he hc

/-! ### Records and supporting types -/

theorem colonless_blank : ({} : Hierarchy).Colonless := by
  intro i
  rw [Hierarchy.element, Hierarchy.node_of_size_le (Nat.zero_le i)]
  exact ⟨List.not_mem_nil, List.not_mem_nil⟩

theorem colonless_of_intake (hst : Intake heads d d')
    (hcolon : ∀ head ∈ heads, Naming.Colonless head.name) (hc : d.hierarchy.Colonless) :
    d'.hierarchy.Colonless := by
  cases hst with
  | ns hm _ => exact hc.fresh .putNamespace ⟨hcolon _ hm, hcolon _ hm⟩
  | enum hm _ _ => exact hc.fresh .putEnum ⟨colonless_last (hcolon _ hm), hcolon _ hm⟩
  | below hst =>
    cases hst with
    | @below head q _ hm _ _ _ =>
      have hname : Naming.Colonless (nameBelow d.hierarchy (.element q) head.name) :=
        colonless_nameBelow (hcolon _ hm)
      exact hc.fresh .putBelow ⟨hname, colonless_compose.2 ⟨(hc _).2, hname⟩⟩
    | inherit => exact hc.same (.modify (Element.native_withFacts _))
    | enter => exact hc
    | notice => exact hc

theorem colonless_of_support (hst : Support s d d') (hs : s.Colonless)
    (hc : d.hierarchy.Colonless) : d'.hierarchy.Colonless := by
  cases hst with
  | @ns name r hn _ =>
    have hname : Naming.Colonless name := by
      rcases hn with rfl | rfl
      · exact hs.runtimeNamespace
      · exact colonless_rootNamespace hs.rootType
    exact hc.fresh .putNamespace ⟨hname, hname⟩
  | give => exact hc.same (.modify fun _ => rfl)
  | @type ns kind fullName useGlobal r _ hk _ =>
    have hname : Naming.Colonless fullName := by
      rcases hk with ⟨-, rfl⟩ | ⟨-, rfl, -⟩
      · exact hs.baseInterface
      · exact hs.rootType
    exact hc.fresh .putBelow ⟨colonless_last hname, hname⟩

/-! ### Nesting and invokers -/

theorem colonless_under (hc : e.Colonless) : (under owner e).Colonless := by
  unfold under
  split
  next name hname =>
    rw [stripQualifier?_eq_some] at hname
    exact ⟨(colonless_compose.1 (hname ▸ hc.2)).2, hc.2⟩
  next => exact hc

theorem Build.TypesNested.colonless (ht : TypesNested d h') (hc : d.hierarchy.Colonless) :
    h'.Colonless := by
  intro i
  rcases ht.stayed_or_moved i with ⟨-, helement⟩ | ⟨p, hi, hp⟩
  · rw [helement]
    exact hc i
  · rw [(ht.moved hi hp).2]
    exact colonless_under (hc i)

theorem Build.EnumsNested.colonless (he : EnumsNested d h') (hs : d.Sound)
    (hc : d.hierarchy.Colonless) : h'.Colonless := by
  intro i
  have hname : Naming.Colonless (h'.element i).name := he.name i ▸ (hc i).1
  refine ⟨hname, ?_⟩
  change Naming.Colonless (h'.fullName i)
  rcases he.stayed_or_moved i with ⟨-, hfull⟩ | ⟨p, hi, hp⟩
  · rw [hfull]
    exact (hc i).2
  · obtain ⟨howner, hcomposed⟩ := he.moved hi hp
    have hkept : h'.fullName p = d.hierarchy.fullName p :=
      (he.stayed fun hmem => absurd hmem (not_mem_rootEnums_of_nest? hs hp)).2
    rw [Hierarchy.composed_iff_of_owner howner, hkept] at hcomposed
    rw [hcomposed]
    exact colonless_compose.2 ⟨(hc p).2, hname⟩

theorem Build.Called.colonless (hcalled : Called s is h h') (hm : InvokersMade h h')
    (ho : h.Orderly) (hc : h.Colonless) : h'.Colonless := by
  intro j
  rcases hcalled.before_or_made j with hlt | ⟨n, i, hn, rfl⟩ | hle
  · exact (hc j).of_native (hm.native hlt)
  · obtain ⟨-, -, hname, howner, p, hp⟩ := hcalled.made hn
    have hcomposed := (hm.made (Nat.le_add_right _ _) (hcalled.lt_size hn)).2.1
    have hkept : h'.fullName p = h.fullName p :=
      Hierarchy.fullName_of_native (hm.native (ho.owner_lt hp))
    rw [Hierarchy.composed_iff_of_owner (howner.trans hp), hkept] at hcomposed
    have hlast : Naming.Colonless (h'.element (h.size + n)).name :=
      hname ▸ colonless_invokerName (hc i).1
    refine ⟨hlast, ?_⟩
    change Naming.Colonless (h'.fullName _)
    rw [hcomposed]
    exact colonless_compose.2 ⟨(hc p).2, hlast⟩
  · rw [Hierarchy.element, Hierarchy.node_of_size_le hle]
    exact colonless_blank 0

/-! ### From pass to pass -/

namespace Stages

variable (hst : Stages p rs d₁ d₂ d₃ d₄ d₅ d₆ d') (hc : Colonfree p rs)
include hst hc

theorem colonless_supported : d₂.hierarchy.Colonless :=
  supported_induction (I := fun d => d.hierarchy.Colonless) (intake_of_ingest hst.ingest) hst.support
    colonless_blank (fun hstep _ => colonless_of_intake hstep hc.records) fun hstep _ =>
      colonless_of_support hstep hc.settings

theorem colonless_named : d₄.hierarchy.Colonless :=
  (hst.types.colonless (hst.colonless_supported hc)).same hst.namedOver.toSameNative

theorem colonless_called : d₆.hierarchy.Colonless := by
  have henclosed := hst.enums.colonless hst.sound_named (hst.colonless_named hc)
  exact hst.called.colonless hst.invokers hst.sound_enclosed.orderly henclosed

end Stages

end BindingTree

import BindingTree.Hierarchy.Names
import BindingTree.Proofs.Hierarchy.Traversal

/-! Full names and chains of owners. An element is composed if its full name goes on from its
owner's, and managed if it has a managed name and its full managed name goes on from its owner's.
When this holds of an element and of everything above it, the full name is the chain of the names
from the top down; for the full managed name no name in the chain may be empty, as an owner without a
full managed name is passed over. -/

namespace BindingTree

namespace Element

/-- What native names rest on. -/
def native (e : Element) : Kind × String × String × Bool := (e.kind, e.name, e.fullName, e.isBound)

/-- What managed names rest on. -/
def managed (e : Element) : Option String × Option String × Option String :=
  (e.managedName, e.fullManagedName, e.givenName)

theorem native_withFacts (f : TypeFacts → TypeFacts) (e : Element) :
    (e.withFacts f).native = e.native := by
  unfold withFacts native kind
  split
  next hp => rw [hp]; rfl
  next => rfl

theorem kind_withFacts (f : TypeFacts → TypeFacts) (e : Element) :
    (e.withFacts f).kind = e.kind := congrArg Prod.fst (native_withFacts f e)

theorem managed_withFacts (f : TypeFacts → TypeFacts) (e : Element) :
    (e.withFacts f).managed = e.managed := by
  unfold withFacts
  split <;> rfl

theorem givenName_of_managed {a b : Element} (hab : a.managed = b.managed) :
    a.givenName = b.givenName :=
  congrArg (fun n : Option String × Option String × Option String => n.2.2) hab

end Element

namespace Hierarchy

/-- The full name of an element goes on from its owner's. -/
def Composed (h : Hierarchy) (i : ElementId) : Prop :=
  h.fullName i = h.composeFullName (h.owner i) (h.element i).name

/-- An element has managed names, and the full one goes on from its owner's. -/
def Managed (h : Hierarchy) (i : ElementId) : Prop :=
  ∃ m, (h.element i).managedName = some m ∧
    (h.element i).fullManagedName = some (h.composeFullManagedName (h.owner i) m)

/-- The managed names of an element's owners and its own, from the top down, joined by dots. -/
def chainManagedName (h : Hierarchy) (i : ElementId) : String :=
  ".".intercalate ((i :: h.ancestors i).reverse.map fun j => (h.element j).managedText)

/-! ### Changes that leave names alone -/

structure SameNative (h h' : Hierarchy) : Prop extends h.SamePlaces h' where
  native : ∀ i, (h'.element i).native = (h.element i).native

structure SameManaged (h h' : Hierarchy) : Prop extends h.SamePlaces h' where
  managed : ∀ i, (h'.element i).managed = (h.element i).managed

variable {h h' h'' : Hierarchy} {i j p : ElementId}

theorem composed_iff_of_owner (ho : h.owner i = .element p) :
    h.Composed i ↔ h.fullName i = h.fullName p ++ "." ++ (h.element i).name := by
  rw [Composed, ho]
  rfl

theorem composed_iff_of_top (ho : ∀ q, h.owner i ≠ .element q) :
    h.Composed i ↔ h.fullName i = (h.element i).name := by
  rw [Composed]
  cases hio : h.owner i with
  | element p => exact absurd hio (ho p)
  | root => rfl
  | detached => rfl

theorem name_of_native {a b : Element} (hab : a.native = b.native) : a.name = b.name :=
  congrArg (fun n : Kind × String × String × Bool => n.2.1) hab

theorem fullName_of_native {a b : Element} (hab : a.native = b.native) : a.fullName = b.fullName :=
  congrArg (fun n : Kind × String × String × Bool => n.2.2.1) hab

theorem isBound_of_native {a b : Element} (hab : a.native = b.native) : a.isBound = b.isBound :=
  congrArg (fun n : Kind × String × String × Bool => n.2.2.2) hab

/-- An element stays composed while its owner, its names and the owner's full name stay. -/
theorem Composed.congr (hc : h.Composed i) (ho : h'.owner i = h.owner i)
    (hname : (h'.element i).name = (h.element i).name) (hfull : h'.fullName i = h.fullName i)
    (hp : ∀ p, h.owner i = .element p → h'.fullName p = h.fullName p) : h'.Composed i := by
  by_cases howned : ∃ p, h.owner i = .element p
  · obtain ⟨p, hip⟩ := howned
    rw [composed_iff_of_owner hip] at hc
    rwa [composed_iff_of_owner (ho ▸ hip), hfull, hp p hip, hname]
  · have htop : ∀ q, h.owner i ≠ .element q := fun q hq => howned ⟨q, hq⟩
    rw [composed_iff_of_top htop] at hc
    rwa [composed_iff_of_top (ho ▸ htop), hfull, hname]

theorem Composed.of_native (hc : h.Composed i) (ho : h'.owner i = h.owner i)
    (hi : (h'.element i).native = (h.element i).native)
    (hp : ∀ p, h.owner i = .element p → (h'.element p).native = (h.element p).native) :
    h'.Composed i :=
  hc.congr ho (name_of_native hi) (fullName_of_native hi) fun p hip => fullName_of_native (hp p hip)

theorem Fresh.composed_of_lt {o : Owner} {e : Element} (hf : Fresh h h' o e) (hg : h.Grounded)
    (hi : i < h.size) (hc : h.Composed i) : h'.Composed i :=
  hc.of_native (hf.owner_of_lt hi) (by rw [hf.element_of_lt hi]) fun p hp => by
    rw [hf.element_of_lt (hg.owner_lt hp)]

namespace SameNative

theorem refl (h : Hierarchy) : h.SameNative h := ⟨.refl h, fun _ => rfl⟩

theorem trans (h₁ : h.SameNative h') (h₂ : h'.SameNative h'') : h.SameNative h'' :=
  ⟨h₁.toSamePlaces.trans h₂.toSamePlaces, fun i => (h₂.native i).trans (h₁.native i)⟩

theorem modify {f : Element → Element} (hf : ∀ e, (f e).native = e.native) :
    h.SameNative (h.modify i f) :=
  ⟨.modify fun e => congrArg Prod.fst (hf e), fun _ => congr_element_modify Element.native hf⟩

variable (hs : h.SameNative h')
include hs

theorem name : (h'.element i).name = (h.element i).name :=
  name_of_native (hs.native i)

theorem fullName : h'.fullName i = h.fullName i := fullName_of_native (hs.native i)

theorem isBound : (h'.element i).isBound = (h.element i).isBound :=
  isBound_of_native (hs.native i)

theorem composed (hc : h.Composed i) : h'.Composed i :=
  hc.of_native (by rw [hs.owner]) (hs.native i) fun p _ => hs.native p

end SameNative

namespace SameManaged

theorem refl (h : Hierarchy) : h.SameManaged h := ⟨.refl h, fun _ => rfl⟩

theorem modify {f : Element → Element} (hk : ∀ e, (f e).kind = e.kind)
    (hf : ∀ e, (f e).managed = e.managed) : h.SameManaged (h.modify i f) :=
  ⟨.modify hk, fun _ => congr_element_modify Element.managed hf⟩

end SameManaged

/-- An element stays managed while it, its owner and the owner's full managed name stay. -/
theorem Managed.congr (hm : h.Managed i) (ho : h'.owner i = h.owner i)
    (hi : (h'.element i).managed = (h.element i).managed)
    (hp : ∀ p, h.owner i = .element p → (h'.element p).managed = (h.element p).managed) :
    h'.Managed i := by
  obtain ⟨m, hname, hfull⟩ := hm
  have hsame : ∀ {a b : Element}, a.managed = b.managed →
      a.managedName = b.managedName ∧ a.fullManagedName = b.fullManagedName := by
    intro a b hab
    simp only [Element.managed, Prod.mk.injEq] at hab
    exact ⟨hab.1, hab.2.1⟩
  refine ⟨m, (hsame hi).1.trans hname, (hsame hi).2.trans (hfull.trans ?_)⟩
  rw [ho]
  cases hio : h.owner i with
  | element p =>
    have htext : (h'.element p).fullManagedText = (h.element p).fullManagedText := by
      rw [Element.fullManagedText, (hsame (hp p hio)).2, Element.fullManagedText]
    simp only [composeFullManagedName, htext]
  | root => rfl
  | detached => rfl

theorem composeFullManagedName_ne_empty {o : Owner} {m : String} (hm : m ≠ "") :
    h.composeFullManagedName o m ≠ "" := by
  unfold composeFullManagedName
  split
  · dsimp only
    split
    · exact hm
    · simp
  · exact hm

/-- Below an owner with a full managed name, the full managed name of a member goes on from it. -/
theorem composeFullManagedName_element {m : String} (hp : (h.element p).fullManagedText ≠ "") :
    h.composeFullManagedName (.element p) m = (h.element p).fullManagedText ++ "." ++ m := by
  simp only [composeFullManagedName, if_neg hp]

/-- The full managed name of a managed element is there if its managed name is not empty. -/
theorem Managed.fullManagedText_ne_empty (hm : h.Managed i)
    (hname : (h.element i).managedName ≠ some "") : (h.element i).fullManagedText ≠ "" := by
  obtain ⟨m, hm, hfull⟩ := hm
  rw [Element.fullManagedText, hfull, Option.getD_some]
  exact composeFullManagedName_ne_empty fun hempty => hname (hempty ▸ hm)

/-! ### Chains -/

/-- Names of an element's owners and its own, from the top down, joined by dots. -/
def chain (h : Hierarchy) (name : Element → String) (i : ElementId) : String :=
  ".".intercalate ((i :: h.ancestors i).reverse.map fun j => name (h.element j))

variable {name : Element → String}

theorem chain_of_owner (hg : h.Grounded) (ho : h.owner i = .element p) :
    h.chain name i = h.chain name p ++ "." ++ name (h.element i) := by
  unfold chain
  rw [hg.ancestors_of_owner ho, List.reverse_cons, List.map_append,
    String.intercalate_append_of_ne_nil (by simp) (by simp)]
  simp

theorem chain_of_top (ho : ∀ q, h.owner i ≠ .element q) : h.chain name i = name (h.element i) := by
  simp [chain, Grounded.ancestors_eq_nil ho]

/-- A composed element with composed elements above it has the full name of its chain. -/
theorem fullName_eq_chain (hg : h.Grounded) (hc : ∀ j, h.Covers j i → h.Composed j) :
    h.fullName i = h.chainFullName i := by
  change h.fullName i = h.chain Element.name i
  induction i using hg.owner_induction with
  | step i ih =>
    have hi := hc i (.refl h i)
    by_cases ho : ∃ p, h.owner i = .element p
    · obtain ⟨p, ho⟩ := ho
      have hp := ih p ho fun j hj => hc j (hj.trans (.of_owner ho))
      rw [(composed_iff_of_owner ho).1 hi, chain_of_owner hg ho, hp]
    · have ho : ∀ q, h.owner i ≠ .element q := fun q hq => ho ⟨q, hq⟩
      rw [(composed_iff_of_top ho).1 hi, chain_of_top ho]

/-- A managed element with managed elements above it, none of them under an empty name, has the full
managed name of its chain. -/
theorem fullManagedName_eq_chain (hg : h.Grounded) (hm : ∀ j, h.Covers j i → h.Managed j)
    (hne : ∀ j, h.Covers j i → (h.element j).managedName ≠ some "") :
    (h.element i).fullManagedName = some (h.chainManagedName i) := by
  change _ = some (h.chain Element.managedText i)
  induction i using hg.owner_induction with
  | step i ih =>
    obtain ⟨m, hname, hfull⟩ := hm i (.refl h i)
    have htext : (h.element i).managedText = m := by rw [Element.managedText, hname, Option.getD_some]
    cases ho : h.owner i with
    | element p =>
      have hpi : h.Covers p i := .of_owner ho
      have hp := ih p ho (fun j hj => hm j (hj.trans hpi)) fun j hj => hne j (hj.trans hpi)
      rw [hfull, ho, chain_of_owner hg ho, htext,
        composeFullManagedName_element ((hm p hpi).fullManagedText_ne_empty (hne p hpi))]
      simp only [Element.fullManagedText, hp, Option.getD_some]
    | root =>
      rw [hfull, ho, chain_of_top (by simp [ho]), htext]
      rfl
    | detached =>
      rw [hfull, ho, chain_of_top (by simp [ho]), htext]
      rfl

end Hierarchy

end BindingTree

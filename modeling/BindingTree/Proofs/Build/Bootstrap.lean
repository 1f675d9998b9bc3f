import BindingTree.Build.Bootstrap
import BindingTree.Proofs.Build.Run
import BindingTree.Proofs.Build.Sound
import BindingTree.Proofs.Naming.Qualifiers

/-! Adding missing supporting types, as a sequence of small steps: a namespace at the top, a given
managed name, and a type below a namespace. The root type goes below the namespace of its
qualifier; a root type without one finds its plain name in the index taken, by the namespace made
for it or by what stood there before. -/

namespace BindingTree.Build

open Naming
open Relation (ReflTransGen)

def supportNamespace (name : String) : Element :=
  { Element.fresh (.ns {}) name with ignored := true }

def supportType (kind : TypeKind) (fullName : String) (useGlobal : Bool) : Element :=
  { Element.fresh (.type kind { basesFixed := true, needsNoInvoker := true })
      (splitLast fullName).2 with
    fullName, ignored := true, useGlobal }

/-- An element with a given managed name. -/
def givenAs (name : String) (e : Element) : Element := { e with givenName := some name }

/-- Where the root type goes: below its qualifier, or under a name that the index has taken. -/
def RootPlace (s : Settings) (d : Draft) (ns : ElementId) : Prop :=
  (splitLast s.rootType).1 = some (d.hierarchy.fullName ns) ∨
    (splitLast s.rootType).1 = none ∧
      ∃ e, d.registry.index.native.get? s.rootType = some e ∧ e.kind ≠ .cls

/-- One step in adding the types that default base types point at. -/
inductive Support (s : Settings) : Draft → Draft → Prop where
  | ns {d : Draft} {name : String} {r : Registry}
      (hn : name = s.runtimeNamespace ∨ (splitLast s.rootType).1.getD s.rootType = name)
      (hr : Registry.addNative d.hierarchy.size (supportNamespace name) d.registry = .ok () r) :
      Support s d ⟨d.hierarchy.putNamespace (supportNamespace name), r⟩
  | give {d : Draft} {i : ElementId} (hne : s.runtimeNamespace ≠ "") :
      Support s d { d with hierarchy := d.hierarchy.modify i (givenAs s.runtimeNamespace) }
  | type {d : Draft} {ns : ElementId} {kind : TypeKind} {fullName : String} {useGlobal : Bool}
      {r : Registry} (hns : ns ∈ d.hierarchy.namespaces)
      (hk : kind = .iface ∧ fullName = s.baseInterface ∨
        kind = .cls ∧ fullName = s.rootType ∧ RootPlace s d ns)
      (hr : Registry.addNative d.hierarchy.size (supportType kind fullName useGlobal) d.registry
        = .ok () r) :
      Support s d ⟨d.hierarchy.putBelow ns (supportType kind fullName useGlobal), r⟩

variable {s : Settings} {d d' : Draft} {name fullName : String} {kind : TypeKind}
  {useGlobal : Bool} {i ns : ElementId}

theorem add_eq_addNative {e : Element} (he : e.fullManagedName = none) :
    Registry.add i e = Registry.addNative i e := by
  have hm : Registry.addManaged i e = pure () := by
    simp [Registry.addManaged, Element.fullManagedText, he]
  rw [Registry.add, hm]
  exact bind_pure (Registry.addNative i e)

/-! ### What a step keeps -/

theorem Support.grows (hs : Support s d d') :
    d.hierarchy.size ≤ d'.hierarchy.size ∧
      ∀ i < d.hierarchy.size, d'.hierarchy.kind i = d.hierarchy.kind i := by
  cases hs with
  | @ns name r hn hr =>
    have hf := Hierarchy.Fresh.putNamespace (h := d.hierarchy) (e := supportNamespace name)
    exact ⟨Nat.le_of_lt hf.size_lt, fun _ hi => hf.kind_of_lt hi⟩
  | give hne =>
    exact ⟨by simp, fun i _ => Hierarchy.congr_element_modify Element.kind fun _ => rfl⟩
  | @type ns kind fullName useGlobal r hns hk hr =>
    have hf := Hierarchy.Fresh.putBelow (h := d.hierarchy) (p := ns)
      (e := supportType kind fullName useGlobal)
    exact ⟨Nat.le_of_lt hf.size_lt, fun _ hi => hf.kind_of_lt hi⟩

/-- What holds of supporting namespaces and types, whatever their given names, holds of all elements
while they are added. -/
theorem Support.forall_element {P : Element → Prop} (hs : Support s d d')
    (hns : ∀ name, P (supportNamespace name))
    (htype : ∀ kind fullName useGlobal, kind = .iface ∨ kind = .cls →
      P (supportType kind fullName useGlobal))
    (hgive : ∀ e, s.runtimeNamespace ≠ "" → P e → P (givenAs s.runtimeNamespace e))
    (hP : ∀ i, P (d.hierarchy.element i)) : ∀ i, P (d'.hierarchy.element i) := by
  cases hs with
  | ns hn hr => exact Hierarchy.Fresh.putNamespace.forall_element (hns _) hP
  | give hne => exact Hierarchy.forall_element_modify (fun e => hgive e hne) hP
  | type hm hk hr =>
    exact Hierarchy.Fresh.putBelow.forall_element (htype _ _ _ (hk.imp And.left And.left)) hP

theorem Support.sound (hs : Support s d d') (hd : d.Sound) : d'.Sound := by
  have hg := hs.grows
  cases hs with
  | ns hn hr =>
    refine ⟨hd.orderly.putNamespace rfl,
      (hd.points.mono hg.1 hg.2).addNative (by simp) ?_ (.inr rfl) hr⟩
    rw [Hierarchy.Fresh.putNamespace.kind_new]
  | give hne => exact hd.same (.modify fun _ => rfl)
  | @type ns kind fullName useGlobal r hns hk hr =>
    have hkind : kind = .iface ∨ kind = .cls := by
      rcases hk with ⟨rfl, -⟩ | ⟨rfl, -, -⟩
      · exact .inl rfl
      · exact .inr rfl
    refine ⟨hd.orderly.putBelow (hd.orderly.lt_size_of_mem_namespaces hns) ?_,
      (hd.points.mono hg.1 hg.2).addNative (by simp) ?_ (.inl ?_) hr⟩
    · rw [(hd.orderly.mem_namespaces.1 hns).1]
      rcases hkind with rfl | rfl <;> rfl
    · rw [Hierarchy.Fresh.putBelow.kind_new]
    · rcases hkind with rfl | rfl <;> rfl

theorem sound_of_support (hs : ReflTransGen (Support s) d d') (hd : d.Sound) : d'.Sound :=
  hd.of_steps Support.sound hs

/-! ### The pass takes such steps -/

theorem makeNamespace_ok (hd : makeNamespace name d = .ok i d') :
    i = d.hierarchy.size ∧ ∃ r,
      Registry.addNative d.hierarchy.size (supportNamespace name) d.registry = .ok () r ∧
        d' = ⟨d.hierarchy.putNamespace (supportNamespace name), r⟩ := by
  obtain ⟨_, _, hmake, hd⟩ := bind_ok.1 hd
  obtain ⟨rfl, rfl⟩ := make_ok.1 hmake
  obtain ⟨_, _, hedit, hd⟩ := bind_ok.1 hd
  obtain rfl := edit_ok.1 hedit
  obtain ⟨_, _, henter, hd⟩ := bind_ok.1 hd
  obtain ⟨rfl, rfl⟩ := pure_ok.1 hd
  obtain ⟨r, hr, rfl⟩ := enter_ok.1 henter
  change Registry.add _ ((d.hierarchy.putNamespace (supportNamespace name)).element _) _ = _ at hr
  rw [Hierarchy.element_putNamespace, if_pos rfl, add_eq_addNative rfl] at hr
  exact ⟨rfl, r, hr, rfl⟩

theorem makeType_ok (hd : makeType ns kind fullName useGlobal d = .ok () d') :
    ∃ r, Registry.addNative d.hierarchy.size (supportType kind fullName useGlobal) d.registry
        = .ok () r ∧
      d' = ⟨d.hierarchy.putBelow ns (supportType kind fullName useGlobal), r⟩ := by
  obtain ⟨_, _, hmake, hd⟩ := bind_ok.1 hd
  obtain ⟨rfl, rfl⟩ := make_ok.1 hmake
  obtain ⟨_, _, hadd, hd⟩ := bind_ok.1 hd
  obtain ⟨-, -, rfl⟩ := addMember_ok.1 hadd
  obtain ⟨r, hr, rfl⟩ := enter_ok.1 hd
  change Registry.add _
    ((d.hierarchy.putBelow ns (supportType kind fullName useGlobal)).element _) _ = _ at hr
  rw [Hierarchy.element_putBelow, if_pos rfl, add_eq_addNative rfl] at hr
  exact ⟨r, hr, rfl⟩

theorem runtimeNamespace_ok (hs : d.Sound) (hd : runtimeNamespace s.runtimeNamespace d = .ok ns d') :
    ReflTransGen (Support s) d d' ∧ ns ∈ d'.hierarchy.namespaces := by
  obtain ⟨_, _, hh, hd⟩ := bind_ok.1 hd
  obtain ⟨rfl, rfl⟩ := hierarchy_ok.1 hh
  cases hfound : d.hierarchy.findNamespaceIgnoringCase? s.runtimeNamespace with
  | some found =>
    simp only [hfound] at hd
    obtain ⟨rfl, rfl⟩ := pure_ok.1 hd
    exact ⟨.refl, List.mem_of_find?_eq_some hfound⟩
  | none =>
    simp only [hfound] at hd
    obtain ⟨id, d₁, hmake, hd⟩ := bind_ok.1 hd
    obtain ⟨rfl, r, hr, rfl⟩ := makeNamespace_ok hmake
    obtain ⟨_, _, hedit, hd⟩ := bind_ok.1 hd
    obtain rfl := editElement_ok.1 hedit
    obtain ⟨rfl, rfl⟩ := pure_ok.1 hd
    have hne : s.runtimeNamespace ≠ "" := (Registry.insert_cases hr).1
    refine ⟨.tail (.single (.ns (.inl rfl) hr)) (.give hne), ?_⟩
    rw [Hierarchy.namespaces_modify,
      Hierarchy.namespaces_putNamespace hs.orderly.size_not_mem_namespaces]
    simp

/-- The root type's namespace is there or made; its plain name is taken if it has no qualifier. -/
theorem rootNamespace_ok (hs : d.Sound)
    (hfound : ∀ e, d.registry.index.lookup? s.rootType (some .cls) = some e → e.kind ≠ .cls)
    (hd : rootNamespace s.rootType d = .ok ns d') :
    ReflTransGen (Support s) d d' ∧ ns ∈ d'.hierarchy.namespaces ∧ RootPlace s d' ns := by
  unfold rootNamespace at hd
  cases hq : (splitLast s.rootType).1 with
  | some name =>
    simp only [hq] at hd
    obtain ⟨_, _, hh, hd⟩ := bind_ok.1 hd
    obtain ⟨rfl, rfl⟩ := hierarchy_ok.1 hh
    cases hfind : d.hierarchy.findNamespace? name with
    | some found =>
      simp only [hfind] at hd
      obtain ⟨rfl, rfl⟩ := pure_ok.1 hd
      refine ⟨.refl, List.mem_of_find?_eq_some hfind, .inl ?_⟩
      rw [hq, (by simpa using List.find?_some hfind : d.hierarchy.fullName found = name)]
    | none =>
      simp only [hfind] at hd
      obtain ⟨rfl, r, hr, rfl⟩ := makeNamespace_ok hd
      refine ⟨.single (.ns (.inr (by rw [hq]; rfl)) hr), ?_, .inl ?_⟩
      · rw [Hierarchy.namespaces_putNamespace hs.orderly.size_not_mem_namespaces]
        simp
      · rw [hq, Hierarchy.fullName, Hierarchy.element_putNamespace, if_pos rfl]
        rfl
  | none =>
    simp only [hq] at hd
    obtain ⟨rfl, r, hr, rfl⟩ := makeNamespace_ok hd
    refine ⟨.single (.ns (.inr (by rw [hq]; rfl)) hr), ?_, .inr ⟨hq, ?_⟩⟩
    · rw [Hierarchy.namespaces_putNamespace hs.orderly.size_not_mem_namespaces]
      simp
    · obtain ⟨e, he, hcase⟩ := Registry.exists_get?_of_insert hr
      refine ⟨e, he, ?_⟩
      rcases hcase with rfl | ⟨hold, -⟩
      · intro hcls
        cases hcls
      · intro hcls
        exact hfound e (hcls ▸ Index.lookup?_of_get?_native hold) hcls

theorem ensureRootType_ok (hs : d.Sound) (hd : ensureRootType s.rootType d = .ok () d') :
    ReflTransGen (Support s) d d' := by
  obtain ⟨_, _, hindex, hd⟩ := bind_ok.1 hd
  obtain ⟨rfl, rfl⟩ := index_ok.1 hindex
  split at hd
  · obtain ⟨-, rfl⟩ := pure_ok.1 hd
    exact .refl
  next hnone =>
    have hfound : ∀ e, d.registry.index.lookup? s.rootType (some .cls) = some e →
        e.kind ≠ .cls := by
      rintro e he hcls
      exact hnone (by simp [he, hcls, Kind.isClass])
    obtain ⟨ns, d₁, hns, hd⟩ := bind_ok.1 hd
    obtain ⟨hsteps, hmem, hplace⟩ := rootNamespace_ok hs hfound hns
    obtain ⟨r, hr, rfl⟩ := makeType_ok hd
    exact hsteps.tail (.type hmem (.inr ⟨rfl, rfl, hplace⟩) hr)

/-- The pass is a sequence of steps. -/
theorem bootstrap_ok (hs : d.Sound) (hd : bootstrap s d = .ok () d') :
    ReflTransGen (Support s) d d' := by
  obtain ⟨ns, d₁, hns, hd⟩ := bind_ok.1 hd
  obtain ⟨hsteps, hmem⟩ := runtimeNamespace_ok hs hns
  have hs₁ : d₁.Sound := sound_of_support hsteps hs
  obtain ⟨_, _, hh, hd⟩ := bind_ok.1 hd
  obtain ⟨rfl, rfl⟩ := hierarchy_ok.1 hh
  have hbase : ∃ d₂, ReflTransGen (Support s) d₁ d₂ ∧
      (if s.makeRootType then ensureRootType s.rootType else pure ()) d₂ = .ok () d' := by
    split at hd
    · exact ⟨d₁, .refl, hd⟩
    · obtain ⟨_, d₂, htype, hd⟩ := bind_ok.1 hd
      obtain ⟨r, hr, rfl⟩ := makeType_ok htype
      exact ⟨_, .single (.type hmem (.inl ⟨rfl, rfl⟩) hr), hd⟩
  obtain ⟨d₂, hsteps₂, hd⟩ := hbase
  have hs₂ : d₂.Sound := sound_of_support hsteps₂ hs₁
  refine (hsteps.trans hsteps₂).trans ?_
  split at hd
  · exact ensureRootType_ok hs₂ hd
  · obtain ⟨-, rfl⟩ := pure_ok.1 hd
    exact .refl

end BindingTree.Build

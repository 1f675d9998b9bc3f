import BindingTree.Proofs.Build.Passes

/-! Native full names while records are taken in, supporting types are added and types are nested.
If no name has a colon, a plain key of the index is the full name of the element it leads to, and a
class under such a key is composed; so a type that is nested by its qualifier is composed in its new
place. The elements that need not be composed are enums at the top, whose records name them in full,
and supporting types, which own nothing but enums unless they are composed after all. -/

namespace BindingTree

open Build Naming
open Relation (ReflTransGen)

/-- A type that was made for default base types to point at. -/
def Hierarchy.Supports (h : Hierarchy) (i : ElementId) : Prop :=
  (h.element i).isBound = false ∧ (h.kind i = .cls ∨ h.kind i = .iface)

theorem Hierarchy.not_supports_of_isBound {h : Hierarchy} {i : ElementId}
    (hb : (h.element i).isBound = true) : ¬ h.Supports i := by
  rintro ⟨hu, -⟩
  rw [hb] at hu
  cases hu

theorem Hierarchy.not_supports_of_kind {h : Hierarchy} {i : ElementId} (hc : h.kind i ≠ .cls)
    (hi : h.kind i ≠ .iface) : ¬ h.Supports i :=
  fun hs => hs.2.elim hc hi

/-- An element is composed, or a supporting type that owns nothing but enums. -/
def Hierarchy.Settled (h : Hierarchy) (i : ElementId) : Prop :=
  h.Composed i ∨ h.Supports i ∧ ∀ c, h.owner c = .element i → h.kind c = .enum

theorem Hierarchy.Supports.congr {h h' : Hierarchy} {i : ElementId} (hs : h.Supports i)
    (hb : (h'.element i).isBound = (h.element i).isBound) (hk : h'.kind i = h.kind i) :
    h'.Supports i := by
  unfold Hierarchy.Supports
  rw [hb, hk]
  exact hs

theorem Hierarchy.Settled.composed {h : Hierarchy} {i : ElementId} (hs : h.Settled i)
    (hn : ¬ h.Supports i) : h.Composed i :=
  hs.resolve_right fun hs => hn hs.1

/-- What the index and the places of a draft say about native names before enums are nested. -/
structure Draft.Indexed (d : Draft) : Prop where
  colonless : ∀ i < d.hierarchy.size, Colonless (d.hierarchy.fullName i)
  keyed : ∀ {k : String} {e : Entry}, d.registry.index.native.get? k = some e → Colonless k →
    d.hierarchy.fullName e.id = k
  unmanaged : ∀ k, d.registry.index.managed.get? k = none
  classes : ∀ {k : String} {e : Entry}, d.registry.index.native.get? k = some e → Colonless k →
    e.kind.isClass = true → d.hierarchy.Composed e.id
  placed : ∀ i, d.hierarchy.owner i ≠ .detached →
    d.hierarchy.kind i = .enum ∧ d.hierarchy.owner i = .root ∨ d.hierarchy.Settled i

variable {d d' : Draft} {h h' : Hierarchy} {i j : ElementId} {heads : List Record.Head}
  {s : Settings}

/-! ### Growth and entries -/

namespace Hierarchy.Fresh

variable {o : Owner} {e : Element} (hf : h.Fresh h' o e)
include hf

/-- The fresh element itself may be anywhere; no supporting type may get a member by it. -/
theorem settled_of_lt (ho : h.Orderly) (hj : j < h.size) (hs : h.Settled j)
    (howner : o = .element j → ¬ h.Supports j) : h'.Settled j := by
  rcases hs with hc | ⟨hsup, honly⟩
  · exact .inl (hf.composed_of_lt ho.toGrounded hj hc)
  · refine .inr ⟨hsup.congr (by rw [hf.element_of_lt hj]) (hf.kind_of_lt hj), fun c hc => ?_⟩
    rw [hf.owner] at hc
    split at hc
    · exact absurd hsup (howner hc)
    · rw [hf.kind_of_lt (Hierarchy.lt_size_of_owner_ne (by simp [hc]))]
      exact honly c hc

end Hierarchy.Fresh

open Hierarchy (Fresh)

/-- A fresh element with its name in order. -/
theorem Draft.Indexed.grow {o : Owner} {e : Element} (hx : d.Indexed) (hs : d.Sound)
    (hf : Fresh d.hierarchy h' o e) (he : Colonless e.fullName)
    (howner : ∀ p, o = .element p → ¬ d.hierarchy.Supports p)
    (hplaced : e.kind = .enum ∧ o = .root ∨ h'.Settled d.hierarchy.size) :
    ({ d with hierarchy := h' } : Draft).Indexed where
  colonless j hj := by
    change Colonless (h'.fullName j)
    rcases hf.lt_or_eq hj with hjs | rfl
    · rw [hf.fullName_of_lt hjs]
      exact hx.colonless j hjs
    · rw [Hierarchy.fullName, hf.element_new]
      exact he
  keyed {k x} hk hc := by
    have hlt : x.id < d.hierarchy.size := (hs.points (t := .native) hk).1
    exact (hf.fullName_of_lt hlt).trans (hx.keyed hk hc)
  unmanaged := hx.unmanaged
  classes {k x} hk hc hcls := by
    have hlt : x.id < d.hierarchy.size := (hs.points (t := .native) hk).1
    exact hf.composed_of_lt hs.orderly.toGrounded hlt (hx.classes hk hc hcls)
  placed j hj := by
    change h'.owner j ≠ .detached at hj
    change h'.kind j = .enum ∧ h'.owner j = .root ∨ h'.Settled j
    rcases hf.lt_or_eq (Hierarchy.lt_size_of_owner_ne hj) with hjs | rfl
    · rw [hf.owner_of_lt hjs] at hj ⊢
      rw [hf.kind_of_lt hjs]
      exact (hx.placed j hj).imp_right fun hset =>
        hf.settled_of_lt hs.orderly hjs hset (howner j)
    · rw [hf.kind_new, hf.owner_new]
      exact hplaced

theorem Draft.Indexed.growTop {e : Element} (hx : d.Indexed) (hs : d.Sound)
    (hf : Fresh d.hierarchy h' .root e) (he : Colonless e.fullName)
    (hplaced : e.kind = .enum ∨ h'.Settled d.hierarchy.size) :
    ({ d with hierarchy := h' } : Draft).Indexed := by
  refine hx.grow hs hf he ?_ (hplaced.imp_left fun hk => ⟨hk, rfl⟩)
  intro p hp
  cases hp

/-- Work that leaves native names and places alone. -/
theorem Draft.Indexed.same (hx : d.Indexed) (hs : d.hierarchy.SameNative h') :
    ({ d with hierarchy := h' } : Draft).Indexed where
  colonless j hj := by
    change Colonless (h'.fullName j)
    rw [hs.fullName]
    exact hx.colonless j (hs.size ▸ hj)
  keyed hk hc := hs.fullName.trans (hx.keyed hk hc)
  unmanaged := hx.unmanaged
  classes hk hc hcls := hs.composed (hx.classes hk hc hcls)
  placed j hj := by
    change h'.owner j ≠ .detached at hj
    change h'.kind j = .enum ∧ h'.owner j = .root ∨ h'.Settled j
    unfold Hierarchy.Settled Hierarchy.Supports
    rw [hs.owner] at hj ⊢
    rw [hs.kind, hs.isBound]
    exact (hx.placed j hj).imp_right fun hset => hset.imp_left hs.composed

/-- An entry of an element. A class has to be composed, or to find its name taken. -/
theorem Draft.Indexed.enter {r : Registry} (hx : d.Indexed)
    (hr : Registry.addNative i (d.hierarchy.element i) d.registry = .ok () r)
    (hclass : (d.hierarchy.kind i).isClass = true → d.hierarchy.Composed i ∨
      Index.inTheWay? d.registry.index.native (d.hierarchy.fullName i)
        ⟨i, d.hierarchy.kind i⟩ ≠ none) :
    ({ d with registry := r } : Draft).Indexed where
  colonless := hx.colonless
  keyed {k x} hk hc := by
    rcases Registry.get?_of_insert (u := .native) hr hk with hold | ⟨-, rfl, ⟨rfl, -⟩ | rfl⟩
    · exact hx.keyed hold hc
    · rfl
    · exact absurd hc (Index.not_colonless_keyed _ _)
  unmanaged k := by
    cases hk : r.index.managed.get? k with
    | none => rfl
    | some x =>
      rcases Registry.get?_of_insert (u := .managed) hr hk with hold | ⟨hu, -⟩
      · change d.registry.index.managed.get? k = some x at hold
        rw [hx.unmanaged k] at hold
        cases hold
      · cases hu
  classes {k x} hk hc hcls := by
    rcases Registry.get?_of_insert (u := .native) hr hk with hold | ⟨-, rfl, ⟨rfl, hway⟩ | rfl⟩
    · exact hx.classes hold hc hcls
    · exact (hclass hcls).resolve_right fun hne => hne hway
    · exact absurd hc (Index.not_colonless_keyed _ _)
  placed := hx.placed

/-! ### Taking records in -/

theorem colonless_nameBelow {o : Owner} {name : String} (hc : Colonless name) :
    Colonless (nameBelow h o name) := by
  unfold nameBelow
  split
  next p =>
    split
    · cases hq : stripQualifier? (h.fullName p) name with
      | some rest =>
        rw [stripQualifier?_eq_some.1 hq] at hc
        exact (colonless_compose.1 hc).2
      | none => exact hc
    · exact hc
  next => exact hc

/-- Every element so far stands for a record. -/
def AllBound (h : Hierarchy) : Prop := ∀ i < h.size, (h.element i).isBound = true

theorem Hierarchy.Fresh.allBound {o : Owner} {e : Element} (hf : h.Fresh h' o e)
    (hb : AllBound h) (he : e.isBound = true) : AllBound h' := by
  intro i hi
  rcases hf.lt_or_eq hi with hlt | rfl
  · rw [hf.element_of_lt hlt]
    exact hb i hlt
  · rw [hf.element_new]
    exact he

/-- While all elements are bound, whatever is not an enum at the top is composed. -/
theorem Draft.Indexed.composed_of_bound (hx : d.Indexed) (hi : d.hierarchy.owner i ≠ .detached)
    (hb : (d.hierarchy.element i).isBound = true)
    (hk : ¬ (d.hierarchy.kind i = .enum ∧ d.hierarchy.owner i = .root)) :
    d.hierarchy.Composed i := by
  have hset := (hx.placed i hi).resolve_left hk
  exact hset.composed (Hierarchy.not_supports_of_isBound hb)

theorem indexed_of_intake (hcolon : ∀ head ∈ heads, Colonless head.name)
    (hst : Intake heads d d') (hs : d.Sound) (hx : d.Indexed) (hb : AllBound d.hierarchy) :
    d'.Indexed ∧ AllBound d'.hierarchy := by
  cases hst with
  | @ns head info hm hc =>
    refine ⟨hx.growTop hs .putNamespace (hcolon head hm) (.inr (.inl ?_)),
      Fresh.putNamespace.allBound hb rfl⟩
    have howner := (Fresh.putNamespace (h := d.hierarchy)
      (e := ofHead head (.ns info) head.name head.name)).owner_new
    rw [Hierarchy.composed_iff_of_top (by simp [howner]), Hierarchy.fullName,
      Fresh.putNamespace.element_new]
    rfl
  | @enum head info hm hc hdot =>
    exact ⟨hx.growTop hs .putEnum (hcolon head hm) (.inl rfl),
      Fresh.putEnum.allBound hb rfl⟩
  | below hst =>
    cases hst with
    | @below head p payload hm hp ha hc =>
      have hname : Colonless (nameBelow d.hierarchy (.element p) head.name) :=
        colonless_nameBelow (hcolon head hm)
      refine ⟨hx.grow hs .putBelow (colonless_compose.2 ⟨hx.colonless p hp, hname⟩) ?_
        (.inr (.inl ?_)), Fresh.putBelow.allBound hb rfl⟩
      · intro q hq
        cases hq
        exact Hierarchy.not_supports_of_isBound (hb p hp)
      · have hf := Fresh.putBelow (h := d.hierarchy) (p := p)
          (e := elementBelow d.hierarchy p head payload)
        rw [Hierarchy.composed_iff_of_owner hf.owner_new, hf.fullName_of_lt hp,
          Hierarchy.fullName, hf.element_new]
        rfl
    | @inherit head p name hm hc hn =>
      have hsame := Hierarchy.SameNative.modify (h := d.hierarchy) (i := p)
        (Element.native_withFacts (addBaseName name))
      refine ⟨hx.same hsame, fun i hi => ?_⟩
      rw [hsame.isBound]
      exact hb i (hsame.size ▸ hi)
    | @enter i r hi ht hr =>
      refine ⟨hx.enter hr fun hcls => .inl ?_, hb⟩
      have hne : d.hierarchy.owner i ≠ .detached := by
        intro hdet
        rw [hs.orderly.attached hi hdet] at hcls
        cases hcls
      refine hx.composed_of_bound hne (hb i hi) ?_
      rintro ⟨he, -⟩
      rw [he] at hcls
      cases hcls
    | notice =>
      exact ⟨⟨hx.colonless, hx.keyed, hx.unmanaged, hx.classes, hx.placed⟩, hb⟩

/-! ### Adding supporting types -/

/-- The names that the settings give to supporting types have no colon. -/
structure Settings.Colonless (s : Settings) : Prop where
  runtimeNamespace : Naming.Colonless s.runtimeNamespace
  baseInterface : Naming.Colonless s.baseInterface
  rootType : Naming.Colonless s.rootType

theorem colonless_rootNamespace (hc : Colonless s.rootType) :
    Colonless ((splitLast s.rootType).1.getD s.rootType) := by
  cases hq : (splitLast s.rootType).1 with
  | some q => exact colonless_of_splitLast hc hq
  | none => exact hc

/-- The root type is composed, or finds its plain name taken. -/
theorem composed_or_taken {ns : ElementId} {useGlobal : Bool} (hs : d.Sound)
    (hns : ns ∈ d.hierarchy.namespaces) (hplace : RootPlace s d ns) :
    (d.hierarchy.putBelow ns (supportType .cls s.rootType useGlobal)).Composed d.hierarchy.size ∨
      Index.inTheWay? d.registry.index.native s.rootType ⟨d.hierarchy.size, .cls⟩ ≠ none := by
  have hlt := hs.orderly.lt_size_of_mem_namespaces hns
  rcases hplace with hq | ⟨-, e, he, hcls⟩
  · have hf := Fresh.putBelow (h := d.hierarchy) (p := ns)
      (e := supportType .cls s.rootType useGlobal)
    refine .inl ?_
    rw [Hierarchy.composed_iff_of_owner hf.owner_new, hf.fullName_of_lt hlt, Hierarchy.fullName,
      hf.element_new]
    exact eq_append_of_splitLast hq
  · have hid : e.id ≠ d.hierarchy.size := Nat.ne_of_lt (hs.points (t := .native) he).1
    refine .inr ?_
    rw [Index.inTheWay?, he]
    simp [Option.filter, hcls, hid]

/-- A supporting type has no members when it is made. -/
theorem settled_supportType {ns : ElementId} {kind : TypeKind} (fullName : String)
    (useGlobal : Bool) (ho : h.Orderly) (hns : ns < h.size) (hk : kind = .iface ∨ kind = .cls) :
    (h.putBelow ns (supportType kind fullName useGlobal)).Settled h.size := by
  have hf := Fresh.putBelow (h := h) (p := ns) (e := supportType kind fullName useGlobal)
  refine .inr ⟨⟨by rw [hf.element_new]; rfl, ?_⟩, fun c hc => ?_⟩
  · rw [Hierarchy.kind, hf.element_new]
    rcases hk with rfl | rfl
    · exact .inr rfl
    · exact .inl rfl
  · rw [hf.owner] at hc
    split at hc
    · exact absurd (Owner.element.inj hc) (Nat.ne_of_lt hns)
    · exact absurd (ho.owner_lt hc) (Nat.lt_irrefl _)

theorem indexed_of_support (hc : s.Colonless) (hst : Support s d d') (hs : d.Sound)
    (hx : d.Indexed) : d'.Indexed := by
  cases hst with
  | @ns name r hn hr =>
    have hname : Colonless name := by
      rcases hn with rfl | rfl
      · exact hc.runtimeNamespace
      · exact colonless_rootNamespace hc.rootType
    have hf := Fresh.putNamespace (h := d.hierarchy) (e := supportNamespace name)
    have hcomposed : (d.hierarchy.putNamespace (supportNamespace name)).Composed
        d.hierarchy.size := by
      rw [Hierarchy.composed_iff_of_top (by simp [hf.owner_new]), Hierarchy.fullName,
        hf.element_new]
      rfl
    have hx₁ := hx.growTop hs hf hname (.inr (.inl hcomposed))
    refine hx₁.enter (by rw [hf.element_new]; exact hr) fun hcls => ?_
    rw [Hierarchy.kind, hf.element_new] at hcls
    cases hcls
  | @give i hne => exact hx.same (.modify fun _ => rfl)
  | @type ns kind fullName useGlobal r hns hk hr =>
    have hlt := hs.orderly.lt_size_of_mem_namespaces hns
    have hname : Colonless fullName := by
      rcases hk with ⟨-, rfl⟩ | ⟨-, rfl, -⟩
      · exact hc.baseInterface
      · exact hc.rootType
    have hf := Fresh.putBelow (h := d.hierarchy) (p := ns)
      (e := supportType kind fullName useGlobal)
    have howner : ∀ p, Owner.element ns = .element p → ¬ d.hierarchy.Supports p := by
      intro p hp
      cases hp
      have hkind := (hs.orderly.mem_namespaces.1 hns).1
      exact Hierarchy.not_supports_of_kind (by simp [hkind]) (by simp [hkind])
    have hset := settled_supportType fullName useGlobal hs.orderly hlt
      (hk.imp And.left And.left)
    have hx₁ := hx.grow hs hf hname howner (.inr hset)
    refine hx₁.enter (by rw [hf.element_new]; exact hr) fun hcls => ?_
    rcases hk with ⟨rfl, -⟩ | ⟨rfl, rfl, hplace⟩
    · rw [Hierarchy.kind, hf.element_new] at hcls
      cases hcls
    · rw [Hierarchy.fullName, Hierarchy.kind, hf.element_new]
      exact composed_or_taken hs hns hplace

/-! ### Nesting types -/

variable {p : ElementId}

/-- Where a type is nested, its qualifier is the full name of a composed class. -/
theorem Draft.Indexed.composed_of_nest? (hx : d.Indexed) (hs : d.Sound)
    (hi : i < d.hierarchy.size) (hp : nest? Kind.isClass d i = some p) :
    d.hierarchy.Composed p ∧ (splitLast (d.hierarchy.fullName i)).1 = some (d.hierarchy.fullName p) := by
  obtain ⟨q, e, hq, he, rfl, -, hcls⟩ := nest?_eq_some.1 hp
  have hcolon : Colonless q := colonless_of_splitLast (hx.colonless i hi) hq
  have hplain : d.registry.index.native.get? q = some e := by
    rw [Index.lookup?, Option.or_eq_some_iff] at he
    rcases he with he | ⟨-, he⟩
    · exact he
    · rw [Index.lookupIn, hx.unmanaged] at he
      cases he
  have hkind : e.kind.isClass = true := (hs.points (t := .native) hplain).2.1 ▸ hcls
  exact ⟨hx.classes hplain hcolon hkind, by rw [hq, hx.keyed hplain hcolon]⟩

/-- A type that was moved is composed in its new place. -/
theorem Build.TypesNested.composed_moved (ht : TypesNested d h') (hx : d.Indexed) (hs : d.Sound)
    (hi : i ∈ listedTypes d.hierarchy) (hp : nest? Kind.isClass d i = some p) : h'.Composed i := by
  have hlt := lt_size_of_mem_listedTypes hs.orderly.toWellFormed hi
  have hq := (hx.composed_of_nest? hs hlt hp).2
  obtain ⟨howner, helement⟩ := ht.moved hi hp
  have happend := eq_append_of_splitLast hq
  rw [Hierarchy.composed_iff_of_owner howner, ht.fullName, ht.fullName, helement,
    under_of_append happend]
  exact happend

theorem Build.TypesNested.composed (ht : TypesNested d h') (hx : d.Indexed) (hs : d.Sound)
    (hc : d.hierarchy.Composed i) : h'.Composed i := by
  rcases ht.stayed_or_moved i with ⟨howner, helement⟩ | ⟨p, hi, hp⟩
  · exact hc.congr howner (by rw [helement]) ht.fullName fun _ _ => ht.fullName
  · exact ht.composed_moved hx hs hi hp

/-- Nothing is nested under an element that is not composed. -/
theorem Build.TypesNested.owner_of_not_composed (ht : TypesNested d h') (hx : d.Indexed)
    (hs : d.Sound) (hi : ¬ d.hierarchy.Composed i) (hji : h'.owner j = .element i) :
    d.hierarchy.owner j = .element i := by
  rcases ht.stayed_or_moved j with ⟨howner, -⟩ | ⟨p, hj, hp⟩
  · rw [← howner, hji]
  · have hmoved := (ht.moved hj hp).1
    rw [hji] at hmoved
    cases hmoved
    have hlt := lt_size_of_mem_listedTypes hs.orderly.toWellFormed hj
    exact absurd (hx.composed_of_nest? hs hlt hp).1 hi

/-- Nesting types settles what it moves and unsettles nothing. -/
theorem Build.TypesNested.placed (ht : TypesNested d h') (hx : d.Indexed) (hs : d.Sound)
    (hi : h'.owner i ≠ .detached) :
    h'.kind i = .enum ∧ h'.owner i = .root ∨ h'.Settled i := by
  rcases ht.stayed_or_moved i with ⟨howner, -⟩ | ⟨p, hlisted, hp⟩
  · rcases hx.placed i (howner ▸ hi) with ⟨hk, ho⟩ | hc | ⟨hsup, honly⟩
    · exact .inl ⟨ht.kind.trans hk, howner.trans ho⟩
    · exact .inr (.inl (ht.composed hx hs hc))
    · by_cases hc : d.hierarchy.Composed i
      · exact .inr (.inl (ht.composed hx hs hc))
      · refine .inr (.inr ⟨hsup.congr ht.isBound ht.kind, fun c hci => ?_⟩)
        rw [ht.kind]
        exact honly c (ht.owner_of_not_composed hx hs hc hci)
  · exact .inr (.inl (ht.composed_moved hx hs hlisted hp))

end BindingTree

import BindingTree.Proofs.Build.Bootstrap
import BindingTree.Proofs.Build.Listings
import BindingTree.Proofs.Build.Nesting

/-! Drafts that differ only in the identifiers of elements and in the order of members. The types and
namespaces of two such drafts correspond one to one, with their names, their places and their
entries. What succeeds on one succeeds on the other and leads to drafts that are alike again, with
fresh elements corresponding to each other. As being alike is symmetric, one direction is enough. -/

namespace BindingTree


/-- A correspondence of the elements of two drafts. -/
abbrev Pairing := ElementId → ElementId → Prop

/-- A correspondence with one more pair. -/
def Pairing.also (R : Pairing) (a b : ElementId) : Pairing := fun i j => R i j ∨ i = a ∧ j = b

/-- Owners that correspond. -/
inductive Placed (R : Pairing) : Owner → Owner → Prop where
  | root : Placed R .root .root
  | element {p q : ElementId} (hr : R p q) : Placed R (.element p) (.element q)

/-- Entries that correspond. -/
def Matches (R : Pairing) (e e' : Entry) : Prop := R e.id e'.id ∧ e.kind = e'.kind

structure Alike (R : Pairing) (d d' : Draft) : Prop where
  sound : d.Sound
  sound' : d'.Sound
  left : ∀ i ∈ d.hierarchy.indexed, ∃ j, R i j
  right : ∀ j ∈ d'.hierarchy.indexed, ∃ i, R i j
  indexed : ∀ {i j : ElementId}, R i j → i ∈ d.hierarchy.indexed ∧ j ∈ d'.hierarchy.indexed
  unique : ∀ {i j a b : ElementId}, R i j → R a b → (i = a ↔ j = b)
  native : ∀ {i j : ElementId}, R i j →
    (d.hierarchy.element i).native = (d'.hierarchy.element j).native
  managed : ∀ {i j : ElementId}, R i j →
    (d.hierarchy.element i).fullManagedName = (d'.hierarchy.element j).fullManagedName
  owner : ∀ {i j : ElementId}, R i j → Placed R (d.hierarchy.owner i) (d'.hierarchy.owner j)
  namespaces : List.Forall₂ R d.hierarchy.namespaces d'.hierarchy.namespaces
  policy : d'.registry.index.policy = d.registry.index.policy
  entries : ∀ (t : Table) (k : String), Option.Rel (Matches R) ((d.registry.index.table t).get? k)
    ((d'.registry.index.table t).get? k)

variable {R S : Pairing} {d d' d₁ d₂ : Draft} {h h' : Hierarchy} {i j p q a b : ElementId}
  {e e' : Entry} {es es' : Entries} {t : Table} {key name : String} {o o' : Owner} {x : Element}

theorem Placed.mono (hp : Placed R o o') (hm : ∀ {i j : ElementId}, R i j → S i j) :
    Placed S o o' := by
  cases hp with
  | root => exact .root
  | element hr => exact .element (hm hr)

theorem Placed.symm (hp : Placed R o o') : Placed (flip R) o' o := by
  cases hp with
  | root => exact .root
  | element hr => exact .element hr

theorem rel_swap {α β : Type} {r : α → β → Prop} {r' : β → α → Prop} {a : Option α}
    {b : Option β} (ho : Option.Rel r a b) (hr : ∀ a b, r a b → r' b a) : Option.Rel r' b a := by
  cases ho with
  | some hab => exact .some (hr _ _ hab)
  | none => exact .none

namespace Alike

theorem symm (ha : Alike R d d') : Alike (flip R) d' d where
  sound := ha.sound'
  sound' := ha.sound
  left := ha.right
  right := ha.left
  indexed hr := (ha.indexed hr).symm
  unique hr hs := (ha.unique hr hs).symm
  native hr := (ha.native hr).symm
  managed hr := (ha.managed hr).symm
  owner hr := (ha.owner hr).symm
  namespaces := ha.namespaces.flip
  policy := ha.policy.symm
  entries t k := rel_swap (ha.entries t k) fun _ _ hm => ⟨hm.1, hm.2.symm⟩

section Names
variable (ha : Alike R d d') (hr : R i j)
include ha hr

theorem kind : d.hierarchy.kind i = d'.hierarchy.kind j := congrArg Prod.fst (ha.native hr)

theorem fullName : d.hierarchy.fullName i = d'.hierarchy.fullName j :=
  Hierarchy.fullName_of_native (ha.native hr)

theorem owner_element (hp : d.hierarchy.owner i = .element p) :
    ∃ q, d'.hierarchy.owner j = .element q ∧ R p q := by
  have ho := ha.owner hr
  rw [hp] at ho
  generalize d'.hierarchy.owner j = o at ho ⊢
  cases ho with
  | element hpq => exact ⟨_, rfl, hpq⟩

end Names

/-! ### The index -/

theorem lookupIn (hm : ∀ k, Option.Rel (Matches R) (es.get? k) (es'.get? k)) (name : String)
    (hint : Option Kind) :
    Option.Rel (Matches R) (Index.lookupIn es name hint) (Index.lookupIn es' name hint) := by
  unfold Index.lookupIn
  cases hint with
  | none => exact hm name
  | some k =>
    dsimp only
    have hplain := hm name
    have hkeyed := hm (k.keyed name)
    generalize es.get? name = plain at hplain ⊢
    generalize es'.get? name = plain' at hplain ⊢
    generalize es.get? (k.keyed name) = keyed at hkeyed ⊢
    generalize es'.get? (k.keyed name) = keyed' at hkeyed ⊢
    have hor : Option.Rel (Matches R) (keyed.or plain) (keyed'.or plain') := by
      cases hkeyed with
      | some hm => exact .some hm
      | none => exact hplain
    cases hplain with
    | none => exact hor
    | @some x x' hm' =>
      simp only [Option.any_some, hm'.2]
      split
      · exact .some hm'
      · exact hor

theorem lookup? (ha : Alike R d d') (name : String) (hint : Option Kind) :
    Option.Rel (Matches R) (d.registry.index.lookup? name hint)
      (d'.registry.index.lookup? name hint) := by
  unfold Index.lookup?
  have hnative := lookupIn (ha.entries .native) name hint
  have hmanaged := lookupIn (ha.entries .managed) name hint
  change Option.Rel _ ((Index.lookupIn (d.registry.index.table .native) name hint).or
    (Index.lookupIn (d.registry.index.table .managed) name hint))
    ((Index.lookupIn (d'.registry.index.table .native) name hint).or
    (Index.lookupIn (d'.registry.index.table .managed) name hint))
  generalize Index.lookupIn (d.registry.index.table .native) name hint = n at hnative ⊢
  generalize Index.lookupIn (d'.registry.index.table .native) name hint = n' at hnative ⊢
  cases hnative with
  | some hm => exact .some hm
  | none => exact hmanaged

theorem put (hm : ∀ k, Option.Rel (Matches R) (es.get? k) (es'.get? k)) (he : Matches R e e')
    (key k : String) :
    Option.Rel (Matches R) ((es.put key e).get? k) ((es'.put key e').get? k) := by
  rw [KeyedList.get?_put, KeyedList.get?_put]
  split
  · exact .some he
  · exact hm k

/-- An entry is in the way in both drafts or in neither. -/
theorem inTheWay? (ha : Alike R d d') (he : Matches R e e') (t : Table) (key : String) :
    Option.Rel (Matches R) (Index.inTheWay? (d.registry.index.table t) key e)
      (Index.inTheWay? (d'.registry.index.table t) key e') := by
  unfold Index.inTheWay?
  have hm := ha.entries t key
  generalize (d.registry.index.table t).get? key = x at hm ⊢
  generalize (d'.registry.index.table t).get? key = x' at hm ⊢
  cases hm with
  | none => exact .none
  | @some x x' hm =>
    have hid : (x.id ≠ e.id) = (x'.id ≠ e'.id) := by rw [ne_eq, ha.unique hm.1 he.1]
    simp only [Option.filter_some, hm.2, he.2, hid]
    split
    · exact .some hm
    · exact .none

theorem leadsTo (ha : Alike R d d') (he : Matches R e e') (t : Table) (key : String) :
    Index.leadsTo (d.registry.index.table t) key e.id =
      Index.leadsTo (d'.registry.index.table t) key e'.id := by
  unfold Index.leadsTo
  have hm := ha.entries t key
  generalize (d.registry.index.table t).get? key = x at hm ⊢
  generalize (d'.registry.index.table t).get? key = x' at hm ⊢
  cases hm with
  | none => rfl
  | @some x x' hm =>
    have hid : (x.id = e.id) = (x'.id = e'.id) := propext (ha.unique hm.1 he.1)
    simp only [Option.any_some, hid]

/-- The same elements with other entries. -/
theorem reindex (ha : Alike R d d') {r r' : Registry} (hp : r.index.PointsInto d.hierarchy)
    (hp' : r'.index.PointsInto d'.hierarchy) (hpolicy : r'.index.policy = r.index.policy)
    (hm : ∀ t k, Option.Rel (Matches R) ((r.index.table t).get? k) ((r'.index.table t).get? k)) :
    Alike R { d with registry := r } { d' with registry := r' } :=
  { ha with
    sound := ⟨ha.sound.orderly, hp⟩
    sound' := ⟨ha.sound'.orderly, hp'⟩
    policy := hpolicy
    entries := hm }

/-- Corresponding elements are entered with the same success. -/
theorem insert (ha : Alike R d d') (he : Matches R e e') (hk : d.hierarchy.kind e.id = e.kind)
    {r : Registry} (hr : Registry.insert t key e d.registry = .ok () r) :
    ∃ r', Registry.insert t key e' d'.registry = .ok () r' ∧
      Alike R { d with registry := r } { d' with registry := r' } := by
  obtain ⟨hi, hj⟩ := ha.indexed he.1
  have hk' : d'.hierarchy.kind e'.id = e'.kind := by rw [← ha.kind he.1, hk, he.2]
  have hway := ha.inTheWay? he t key
  have hled := ha.leadsTo he t (e.kind.keyed key)
  have hrun : ∃ r', Registry.insert t key e' d'.registry = .ok () r' ∧
      r'.index.policy = r.index.policy ∧ ∀ u k, Option.Rel (Matches R) ((r.index.table u).get? k)
        ((r'.index.table u).get? k) := by
    have hput : ∀ key' u k, Option.Rel (Matches R)
        (((d.registry.index.setTable t ((d.registry.index.table t).put key' e)).table u).get? k)
        (((d'.registry.index.setTable t ((d'.registry.index.table t).put key' e')).table u).get?
          k) := by
      intro key' u k
      rw [Index.table_setTable, Index.table_setTable]
      split
      · exact put (ha.entries t) he key' k
      · exact ha.entries u k
    unfold Registry.insert Index.insert
    obtain ⟨hkey, ⟨hnone, rfl⟩ | ⟨existing, hsome, hp, hcases⟩⟩ := Registry.insert_cases hr
    · rw [hnone] at hway
      generalize hw : Index.inTheWay? (d'.registry.index.table t) key e' = w at hway
      cases hway
      simp only [hkey, hw, if_false]
      exact ⟨_, rfl, Index.policy_setTable.trans (ha.policy.trans Index.policy_setTable.symm),
        hput key⟩
    · rw [hsome] at hway
      generalize hw : Index.inTheWay? (d'.registry.index.table t) key e' = w at hway
      cases hway
      simp only [hkey, hw, if_false, ha.policy.trans hp, ← he.2, ← hled]
      rcases hcases with ⟨hl, rfl⟩ | ⟨hl, rfl⟩
      · rw [hl, if_pos rfl]
        exact ⟨_, rfl, ha.policy, ha.entries⟩
      · rw [hl, if_neg Bool.false_ne_true]
        exact ⟨_, rfl, Index.policy_setTable.trans (ha.policy.trans Index.policy_setTable.symm),
          hput _⟩
  obtain ⟨r', hr', hpolicy, hm⟩ := hrun
  have htype : ∀ {k : Kind}, k.isIndexed = true → k.isType = true ∨ k = .ns := by
    intro k hk
    simpa [Kind.isIndexed] using hk
  obtain ⟨hlt, hind⟩ := Hierarchy.mem_indexed.1 hi
  obtain ⟨hlt', hind'⟩ := Hierarchy.mem_indexed.1 hj
  exact ⟨r', hr', ha.reindex
    (ha.sound.points.insert hlt hk (htype (hk ▸ hind)) hr)
    (ha.sound'.points.insert hlt' hk' (htype (hk' ▸ hind')) hr') hpolicy hm⟩

/-! ### Fresh elements -/

/-- An element is made on both sides, under owners that correspond. -/
theorem fresh (ha : Alike R d d') (hf : d.hierarchy.Fresh h o x) (hf' : d'.hierarchy.Fresh h' o' x)
    (ho : h.Orderly) (ho' : h'.Orderly) (hk : x.kind.isIndexed = true) (hp : Placed R o o')
    (hns : List.Forall₂ (R.also d.hierarchy.size d'.hierarchy.size) h.namespaces h'.namespaces) :
    Alike (R.also d.hierarchy.size d'.hierarchy.size) { d with hierarchy := h }
      { d' with hierarchy := h' } where
  sound := ha.sound.extend ho (Nat.le_of_lt hf.size_lt) fun _ hi => hf.kind_of_lt hi
  sound' := ha.sound'.extend ho' (Nat.le_of_lt hf'.size_lt) fun _ hi => hf'.kind_of_lt hi
  left i hi := by
    rw [hf.indexed, hk, if_pos rfl] at hi
    rcases List.mem_append.1 hi with hi | hi
    · exact (ha.left i hi).imp fun _ => .inl
    · exact ⟨_, .inr ⟨List.mem_singleton.1 hi, rfl⟩⟩
  right j hj := by
    rw [hf'.indexed, hk, if_pos rfl] at hj
    rcases List.mem_append.1 hj with hj | hj
    · exact (ha.right j hj).imp fun _ => .inl
    · exact ⟨_, .inr ⟨rfl, List.mem_singleton.1 hj⟩⟩
  indexed {i j} hr := by
    rw [hf.indexed, hf'.indexed, hk, if_pos rfl]
    rcases hr with hr | ⟨rfl, rfl⟩
    · obtain ⟨hi, hj⟩ := ha.indexed hr
      exact ⟨List.mem_append_left _ hi, List.mem_append_left _ hj⟩
    · simp
  unique {i j a b} hr hs := by
    have hlt : ∀ {i j : ElementId}, R i j → i < d.hierarchy.size ∧ j < d'.hierarchy.size :=
      fun hr => ⟨(Hierarchy.mem_indexed.1 (ha.indexed hr).1).1,
        (Hierarchy.mem_indexed.1 (ha.indexed hr).2).1⟩
    rcases hr with hr | ⟨rfl, rfl⟩ <;> rcases hs with hs | ⟨rfl, rfl⟩
    · exact ha.unique hr hs
    · exact ⟨fun he => absurd (hlt hr).1 (by simp [he]), fun he => absurd (hlt hr).2 (by simp [he])⟩
    · exact ⟨fun he => absurd (hlt hs).1 (by simp [he]), fun he => absurd (hlt hs).2 (by simp [he])⟩
    · simp
  native {i j} hr := by
    rcases hr with hr | ⟨rfl, rfl⟩
    · obtain ⟨hi, hj⟩ := ha.indexed hr
      dsimp only
      rw [hf.element_of_lt (Hierarchy.mem_indexed.1 hi).1,
        hf'.element_of_lt (Hierarchy.mem_indexed.1 hj).1]
      exact ha.native hr
    · dsimp only
      rw [hf.element_new, hf'.element_new]
  managed {i j} hr := by
    rcases hr with hr | ⟨rfl, rfl⟩
    · obtain ⟨hi, hj⟩ := ha.indexed hr
      dsimp only
      rw [hf.element_of_lt (Hierarchy.mem_indexed.1 hi).1,
        hf'.element_of_lt (Hierarchy.mem_indexed.1 hj).1]
      exact ha.managed hr
    · dsimp only
      rw [hf.element_new, hf'.element_new]
  owner {i j} hr := by
    rcases hr with hr | ⟨rfl, rfl⟩
    · obtain ⟨hi, hj⟩ := ha.indexed hr
      dsimp only
      rw [hf.owner_of_lt (Hierarchy.mem_indexed.1 hi).1,
        hf'.owner_of_lt (Hierarchy.mem_indexed.1 hj).1]
      exact (ha.owner hr).mono .inl
    · dsimp only
      rw [hf.owner_new, hf'.owner_new]
      exact hp.mono .inl
  namespaces := hns
  policy := ha.policy
  entries t k := by
    have hm := ha.entries t k
    dsimp only
    generalize (d.registry.index.table t).get? k = y at hm ⊢
    generalize (d'.registry.index.table t).get? k = y' at hm ⊢
    cases hm with
    | some hm => exact .some ⟨.inl hm.1, hm.2⟩
    | none => exact .none

/-- Changes of elements that leave names and places alone. -/
theorem same (ha : Alike R d d') (hs : d.hierarchy.SameNative h) (hs' : d'.hierarchy.SameNative h')
    (hm : ∀ i, (h.element i).fullManagedName = (d.hierarchy.element i).fullManagedName)
    (hm' : ∀ j, (h'.element j).fullManagedName = (d'.hierarchy.element j).fullManagedName) :
    Alike R { d with hierarchy := h } { d' with hierarchy := h' } := by
  have hindexed : ∀ {g g' : Hierarchy}, g.SameNative g' → g'.indexed = g.indexed := by
    intro g g' hg
    unfold Hierarchy.indexed Hierarchy.ids
    rw [hg.size, hg.kind]
  refine { ha with
    sound := ha.sound.same hs.toSamePlaces
    sound' := ha.sound'.same hs'.toSamePlaces
    left := fun i hi => ha.left i (hindexed hs ▸ hi)
    right := fun j hj => ha.right j (hindexed hs' ▸ hj)
    indexed := fun hr => ?_
    native := fun hr => ?_
    managed := fun hr => ?_
    owner := fun hr => ?_
    namespaces := ?_ }
  · dsimp only
    rw [hindexed hs, hindexed hs']
    exact ha.indexed hr
  · exact (hs.native _).trans ((ha.native hr).trans (hs'.native _).symm)
  · exact (hm _).trans ((ha.managed hr).trans (hm' _).symm)
  · dsimp only
    rw [hs.owner, hs'.owner]
    exact ha.owner hr
  · dsimp only
    rw [hs.namespaces, hs'.namespaces]
    exact ha.namespaces

theorem find? {l l' : List ElementId} {f f' : ElementId → Bool} (hl : List.Forall₂ R l l')
    (hf : ∀ i j, R i j → f i = f' j) : Option.Rel R (l.find? f) (l'.find? f') := by
  induction hl with
  | nil => exact .none
  | @cons i j is js hij _ ih =>
    rw [List.find?_cons, List.find?_cons, hf i j hij]
    split
    · exact .some hij
    · exact ih

/-- Corresponding namespaces have corresponding members. -/
theorem member (ha : Alike R d d') (hr : R a b) (hi : d.hierarchy.owner i = .element a)
    (hk : (d.hierarchy.kind i).isIndexed = true) :
    ∃ j, R i j ∧ d'.hierarchy.owner j = .element b := by
  have hlt := Hierarchy.lt_size_of_owner_ne (h := d.hierarchy) (i := i) (by simp [hi])
  obtain ⟨j, hij⟩ := ha.left i (Hierarchy.mem_indexed.2 ⟨hlt, hk⟩)
  obtain ⟨q, hq, haq⟩ := ha.owner_element hij hi
  exact ⟨j, hij, (ha.unique hr haq).1 rfl ▸ hq⟩

end Alike

/-! ### Supporting types -/

namespace Build

theorem makeNamespace_run {r : Registry}
    (hr : Registry.addNative d.hierarchy.size (supportNamespace name) d.registry = .ok () r) :
    makeNamespace name d =
      .ok d.hierarchy.size ⟨d.hierarchy.putNamespace (supportNamespace name), r⟩ := by
  refine bind_ok.2 ⟨_, _, make_ok.2 ⟨rfl, rfl⟩, bind_ok.2 ⟨(), _, edit_ok.2 rfl,
    bind_ok.2 ⟨(), _, enter_ok.2 ⟨r, ?_, rfl⟩, pure_ok.2 ⟨rfl, rfl⟩⟩⟩⟩
  change Registry.add _ ((d.hierarchy.putNamespace (supportNamespace name)).element _) _ = _
  rw [Hierarchy.element_putNamespace, if_pos rfl, add_eq_addNative rfl]
  exact hr

theorem makeType_run {kind : TypeKind} {useGlobal : Bool} {r : Registry} (hs : d.Sound)
    (hp : p < d.hierarchy.size)
    (hr : Registry.addNative d.hierarchy.size (supportType kind name useGlobal) d.registry
      = .ok () r) :
    makeType p kind name useGlobal d =
      .ok () ⟨d.hierarchy.putBelow p (supportType kind name useGlobal), r⟩ := by
  refine bind_ok.2 ⟨_, _, make_ok.2 ⟨rfl, rfl⟩, bind_ok.2 ⟨(), _,
    addMember_ok.2 ⟨Nat.ne_of_lt hp, size_not_mem_ancestors hs, rfl⟩, enter_ok.2 ⟨r, ?_, rfl⟩⟩⟩
  change Registry.add _
    ((d.hierarchy.putBelow p (supportType kind name useGlobal)).element _) _ = _
  rw [Hierarchy.element_putBelow, if_pos rfl, add_eq_addNative rfl]
  exact hr

end Build

open Build

namespace Alike

variable {s : Settings}

theorem makeNamespace (ha : Alike R d d') (hd : makeNamespace name d = .ok i d₁) :
    ∃ S j d₂, Build.makeNamespace name d' = .ok j d₂ ∧ Alike S d₁ d₂ ∧ S i j := by
  obtain ⟨rfl, r, hr, rfl⟩ := makeNamespace_ok hd
  have hns : List.Forall₂ (R.also d.hierarchy.size d'.hierarchy.size)
      (d.hierarchy.putNamespace (supportNamespace name)).namespaces
      (d'.hierarchy.putNamespace (supportNamespace name)).namespaces := by
    rw [Hierarchy.namespaces_putNamespace ha.sound.orderly.size_not_mem_namespaces,
      Hierarchy.namespaces_putNamespace ha.sound'.orderly.size_not_mem_namespaces]
    exact List.rel_append (ha.namespaces.imp fun _ _ => .inl) (.cons (.inr ⟨rfl, rfl⟩) .nil)
  have hfresh := ha.fresh .putNamespace .putNamespace (ha.sound.orderly.putNamespace rfl)
    (ha.sound'.orderly.putNamespace rfl) rfl .root hns
  have hkind : (d.hierarchy.putNamespace (supportNamespace name)).kind d.hierarchy.size = .ns :=
    Hierarchy.Fresh.putNamespace.kind_new
  have hm : Matches (R.also d.hierarchy.size d'.hierarchy.size) ⟨d.hierarchy.size, .ns⟩
      ⟨d'.hierarchy.size, .ns⟩ := ⟨.inr ⟨rfl, rfl⟩, rfl⟩
  obtain ⟨r', hr', halike⟩ := hfresh.insert hm hkind hr
  exact ⟨_, _, _, makeNamespace_run hr', halike, .inr ⟨rfl, rfl⟩⟩

theorem makeType {kind : TypeKind} {useGlobal : Bool} (ha : Alike R d d') (hr : R p q)
    (hp : p ∈ d.hierarchy.namespaces) (hk : kind = .iface ∨ kind = .cls)
    (hd : makeType p kind name useGlobal d = .ok () d₁) :
    ∃ S d₂, Build.makeType q kind name useGlobal d' = .ok () d₂ ∧ Alike S d₁ d₂ := by
  obtain ⟨r, hadd, rfl⟩ := makeType_ok hd
  obtain ⟨hmem, hmem'⟩ := ha.indexed hr
  have hlt := (Hierarchy.mem_indexed.1 hmem).1
  have hlt' := (Hierarchy.mem_indexed.1 hmem').1
  have hkind : d.hierarchy.kind p = .ns := (ha.sound.orderly.mem_namespaces.1 hp).1
  have hown : Kind.mayOwn .ns (supportType kind name useGlobal).kind = true := by
    rcases hk with rfl | rfl <;> rfl
  have hns : List.Forall₂ (R.also d.hierarchy.size d'.hierarchy.size)
      (d.hierarchy.putBelow p (supportType kind name useGlobal)).namespaces
      (d'.hierarchy.putBelow q (supportType kind name useGlobal)).namespaces := by
    rw [Hierarchy.namespaces_putBelow ha.sound.orderly.size_not_mem_namespaces,
      Hierarchy.namespaces_putBelow ha.sound'.orderly.size_not_mem_namespaces]
    exact ha.namespaces.imp fun _ _ => .inl
  have hfresh := ha.fresh .putBelow .putBelow (ha.sound.orderly.putBelow hlt (hkind ▸ hown))
    (ha.sound'.orderly.putBelow hlt' (by rwa [← ha.kind hr, hkind]))
    (by rcases hk with rfl | rfl <;> rfl) (.element hr) hns
  have hnew : (d.hierarchy.putBelow p (supportType kind name useGlobal)).kind d.hierarchy.size =
      (supportType kind name useGlobal).kind := Hierarchy.Fresh.putBelow.kind_new
  have hm : Matches (R.also d.hierarchy.size d'.hierarchy.size)
      ⟨d.hierarchy.size, (supportType kind name useGlobal).kind⟩
      ⟨d'.hierarchy.size, (supportType kind name useGlobal).kind⟩ := ⟨.inr ⟨rfl, rfl⟩, rfl⟩
  obtain ⟨r', hr', halike⟩ := hfresh.insert hm hnew hadd
  exact ⟨_, _, makeType_run ha.sound' hlt' hr', halike⟩

theorem findNamespaceIgnoringCase? (ha : Alike R d d') (name : String) :
    Option.Rel R (d.hierarchy.findNamespaceIgnoringCase? name)
      (d'.hierarchy.findNamespaceIgnoringCase? name) := by
  refine find? ha.namespaces fun i j hr => ?_
  have hname : (d.hierarchy.element i).fullName = (d'.hierarchy.element j).fullName :=
    ha.fullName hr
  simp only [hname, ha.managed hr]

theorem findNamespace? (ha : Alike R d d') (name : String) :
    Option.Rel R (d.hierarchy.findNamespace? name) (d'.hierarchy.findNamespace? name) :=
  find? ha.namespaces fun i j hr => by simp only [ha.fullName hr]

/-- An interface that one namespace has, the corresponding one has too. -/
theorem hasInterface (ha : Alike R d d') (hr : R p q)
    (hi : hasInterface d.hierarchy p name = true) :
    Build.hasInterface d'.hierarchy q name = true := by
  unfold Build.hasInterface at hi ⊢
  rw [List.any_eq_true] at hi ⊢
  obtain ⟨i, hmem, hsame⟩ := hi
  rw [Bool.and_eq_true, decide_eq_true_eq] at hsame
  have howner := ha.sound.orderly.mem_members.1 hmem
  obtain ⟨j, hij, hj⟩ := ha.member hr howner (by rw [hsame.1]; rfl)
  refine ⟨j, ha.sound'.orderly.mem_members.2 hj, ?_⟩
  rw [Bool.and_eq_true, decide_eq_true_eq, ← ha.kind hij, ← ha.fullName hij]
  exact hsame

theorem hasInterface_eq (ha : Alike R d d') (hr : R p q) (name : String) :
    Build.hasInterface d.hierarchy p name = Build.hasInterface d'.hierarchy q name :=
  Bool.eq_iff_iff.2 ⟨ha.hasInterface hr, ha.symm.hasInterface hr⟩

theorem runtimeNamespace (ha : Alike R d d')
    (hd : runtimeNamespace name d = .ok i d₁) :
    ∃ S j d₂, Build.runtimeNamespace name d' = .ok j d₂ ∧ Alike S d₁ d₂ ∧ S i j ∧
      i ∈ d₁.hierarchy.namespaces := by
  obtain ⟨_, _, hh, hd⟩ := bind_ok.1 hd
  obtain ⟨rfl, rfl⟩ := hierarchy_ok.1 hh
  have hfind := ha.findNamespaceIgnoringCase? name
  unfold Build.runtimeNamespace
  rw [bind_run, hierarchy_run]
  dsimp only
  generalize hf : d.hierarchy.findNamespaceIgnoringCase? name = found at hfind hd
  generalize d'.hierarchy.findNamespaceIgnoringCase? name = found' at hfind ⊢
  cases hfind with
  | some hr =>
    obtain ⟨rfl, rfl⟩ := pure_ok.1 hd
    exact ⟨R, _, d', rfl, ha, hr, List.mem_of_find?_eq_some hf⟩
  | none =>
    obtain ⟨id, d₂, hmake, hd⟩ := bind_ok.1 hd
    obtain ⟨S, j, d₃, hmake', hs, hr⟩ := ha.makeNamespace hmake
    obtain ⟨_, _, hedit, hd⟩ := bind_ok.1 hd
    obtain rfl := editElement_ok.1 hedit
    obtain ⟨rfl, rfl⟩ := pure_ok.1 hd
    refine ⟨S, j, _, bind_ok.2 ⟨_, _, hmake', bind_ok.2 ⟨(), _, editElement_ok.2 rfl,
      pure_ok.2 ⟨rfl, rfl⟩⟩⟩, hs.same (.modify fun _ => rfl) (.modify fun _ => rfl)
        (fun _ => Hierarchy.congr_element_modify Element.fullManagedName fun _ => rfl)
        (fun _ => Hierarchy.congr_element_modify Element.fullManagedName fun _ => rfl), hr, ?_⟩
    obtain ⟨rfl, r, -, rfl⟩ := makeNamespace_ok hmake
    rw [Hierarchy.namespaces_modify,
      Hierarchy.namespaces_putNamespace ha.sound.orderly.size_not_mem_namespaces]
    simp

theorem rootNamespace (ha : Alike R d d') (hd : rootNamespace name d = .ok i d₁) :
    ∃ S j d₂, Build.rootNamespace name d' = .ok j d₂ ∧ Alike S d₁ d₂ ∧ S i j ∧
      i ∈ d₁.hierarchy.namespaces := by
  have hmade : ∀ {name : String}, Build.makeNamespace name d = .ok i d₁ →
      i ∈ d₁.hierarchy.namespaces := by
    intro name hmake
    obtain ⟨rfl, r, -, rfl⟩ := makeNamespace_ok hmake
    rw [Hierarchy.namespaces_putNamespace ha.sound.orderly.size_not_mem_namespaces]
    simp
  unfold Build.rootNamespace at hd ⊢
  cases hq : (Naming.splitLast name).1 with
  | none =>
    simp only [hq] at hd ⊢
    obtain ⟨S, j, d₂, hmake, hs, hr⟩ := ha.makeNamespace hd
    exact ⟨S, j, d₂, hmake, hs, hr, hmade hd⟩
  | some qualifier =>
    simp only [hq] at hd ⊢
    obtain ⟨_, _, hh, hd⟩ := bind_ok.1 hd
    obtain ⟨rfl, rfl⟩ := hierarchy_ok.1 hh
    have hfind := ha.findNamespace? qualifier
    rw [bind_run, hierarchy_run]
    dsimp only
    generalize hf : d.hierarchy.findNamespace? qualifier = found at hfind hd
    generalize d'.hierarchy.findNamespace? qualifier = found' at hfind ⊢
    cases hfind with
    | some hr =>
      obtain ⟨rfl, rfl⟩ := pure_ok.1 hd
      exact ⟨R, _, d', rfl, ha, hr, List.mem_of_find?_eq_some hf⟩
    | none =>
      obtain ⟨S, j, d₂, hmake, hs, hr⟩ := ha.makeNamespace hd
      exact ⟨S, j, d₂, hmake, hs, hr, hmade hd⟩

theorem ensureRootType (ha : Alike R d d') (hd : ensureRootType name d = .ok () d₁) :
    ∃ S d₂, Build.ensureRootType name d' = .ok () d₂ ∧ Alike S d₁ d₂ := by
  obtain ⟨_, _, hindex, hd⟩ := bind_ok.1 hd
  obtain ⟨rfl, rfl⟩ := index_ok.1 hindex
  have hfound : (d.registry.index.lookup? name (some .cls)).any (·.kind.isClass) =
      (d'.registry.index.lookup? name (some .cls)).any (·.kind.isClass) := by
    have hl := ha.lookup? name (some .cls)
    generalize d.registry.index.lookup? name (some .cls) = e at hl ⊢
    generalize d'.registry.index.lookup? name (some .cls) = e' at hl ⊢
    cases hl with
    | some hm => simp only [Option.any_some, hm.2]
    | none => rfl
  unfold Build.ensureRootType
  rw [bind_run]
  change ∃ S d₂, (if (d'.registry.index.lookup? name (some .cls)).any (·.kind.isClass) then _ else
    _ : Build Unit) d' = .ok () d₂ ∧ _
  rw [← hfound]
  split at hd
  next hany =>
    obtain ⟨-, rfl⟩ := pure_ok.1 hd
    exact ⟨R, d', by rw [if_pos hany]; rfl, ha⟩
  next hany =>
    obtain ⟨i, d₂, hroot, hd⟩ := bind_ok.1 hd
    obtain ⟨S, j, d₃, hroot', hs, hr, hmem⟩ := ha.rootNamespace hroot
    obtain ⟨T, d₄, htype, ht⟩ := hs.makeType hr hmem (.inr rfl) hd
    exact ⟨T, d₄, by rw [if_neg hany]; exact bind_ok.2 ⟨_, _, hroot', htype⟩, ht⟩

/-- Supporting types are added with the same success. -/
theorem bootstrap (ha : Alike R d d') (hd : bootstrap s d = .ok () d₁) :
    ∃ S d₂, Build.bootstrap s d' = .ok () d₂ ∧ Alike S d₁ d₂ := by
  obtain ⟨i, d₂, hns, hd⟩ := bind_ok.1 hd
  obtain ⟨S, j, d₃, hns', hs, hr, hmem⟩ := ha.runtimeNamespace hns
  obtain ⟨_, _, hh, hd⟩ := bind_ok.1 hd
  obtain ⟨rfl, rfl⟩ := hierarchy_ok.1 hh
  have hroot : ∀ {T : Pairing} {d d' : Draft}, Alike T d d' →
      (if s.makeRootType then Build.ensureRootType s.rootType else pure ()) d = .ok () d₁ →
        ∃ S d₂, (if s.makeRootType then Build.ensureRootType s.rootType else pure ()) d'
          = .ok () d₂ ∧ Alike S d₁ d₂ := by
    intro T d d' ht hd
    split at hd
    next hmake => rw [if_pos hmake]; exact ht.ensureRootType hd
    next hmake =>
      obtain ⟨-, rfl⟩ := pure_ok.1 hd
      exact ⟨T, d', by rw [if_neg hmake]; rfl, ht⟩
  unfold Build.bootstrap
  rw [bind_run, hns']
  dsimp only
  rw [bind_run]
  change ∃ S d₂, (if Build.hasInterface d₃.hierarchy j s.baseInterface then _ else _ : Build Unit) d₃
    = .ok () d₂ ∧ _
  rw [← hs.hasInterface_eq hr]
  split at hd
  next hface =>
    rw [if_pos hface]
    exact hroot hs hd
  next hface =>
    rw [if_neg hface]
    obtain ⟨_, d₄, htype, hd⟩ := bind_ok.1 hd
    obtain ⟨T, d₅, htype', ht⟩ := hs.makeType hr hmem (.inl rfl) htype
    obtain ⟨U, d₆, hrest, hu⟩ := hroot ht hd
    exact ⟨U, d₆, bind_ok.2 ⟨(), _, htype', hrest⟩, hu⟩

end Alike

end BindingTree

import BindingTree.Build.Draft
import BindingTree.Proofs.Hierarchy.Traversal
import BindingTree.Proofs.Index.Entries

/-! What holds of a draft from the first pass to the last. Its hierarchy is well-formed, each
element stands below one that may own it, and only records of implemented interfaces are ever taken
out; so all others are reached from the top. Its index leads to types and namespaces of that
hierarchy. -/

namespace BindingTree

/-- Whether elements of a kind may stand below elements of another. -/
def Kind.mayOwn : Kind → Kind → Bool
  | .ns, k => k ∈ [Kind.cls, .iface, .invoker, .enum]
  | .cls, k =>
    k ∈ [Kind.field, .ctor, .method, .implements, .typeParam, .cls, .iface, .invoker, .enum]
  | .iface, k => k ∈ [Kind.field, .method, .implements, .typeParam, .enum]
  | .enum, k => k ∈ [Kind.field, .method]
  | .method, k | .ctor, k => k ∈ [Kind.param, .typeParam, .exception]
  | .typeParam, k => k = .constraint
  | _, _ => false

namespace Hierarchy

structure Orderly (h : Hierarchy) : Prop extends h.WellFormed where
  fits : ∀ {i p : ElementId}, h.owner i = .element p → (h.kind p).mayOwn (h.kind i)
  attached : ∀ {i : ElementId}, i < h.size → h.owner i = .detached → h.kind i = .implements

variable {h h' : Hierarchy} {i p c : ElementId} {e : Element}

theorem SamePlaces.orderly (hs : h.SamePlaces h') (ho : h.Orderly) : h'.Orderly where
  toWellFormed := hs.wellFormed ho.toWellFormed
  fits := by
    rw [hs.owner, hs.kind]
    exact ho.fits
  attached := by
    rw [hs.size, hs.owner, hs.kind]
    exact ho.attached

namespace Orderly

theorem nil : ({} : Hierarchy).Orderly where
  toWellFormed := WellFormed.nil
  fits hi := by simp [owner, node, Node.none] at hi
  attached hi := absurd hi (Nat.not_lt_zero _)

variable (ho : h.Orderly)
include ho

theorem modify {f : Element → Element} (hf : ∀ e, (f e).kind = e.kind) : (h.modify i f).Orderly :=
  (SamePlaces.modify hf).orderly ho

/-- Growth where the fresh element fits. -/
theorem of_fresh {o : Owner} (hf : Fresh h h' o e) (hw : h'.WellFormed) (ha : o ≠ .detached)
    (hk : ∀ p, o = .element p → (h.kind p).mayOwn e.kind) : h'.Orderly where
  toWellFormed := hw
  fits {j q} hj := by
    have hjs : j < h'.size := lt_size_of_owner_ne (by simp [hj])
    rcases hf.lt_or_eq hjs with hlt | rfl
    · rw [hf.owner_of_lt hlt] at hj
      rw [hf.kind_of_lt hlt, hf.kind_of_lt (ho.owner_lt hj)]
      exact ho.fits hj
    · rw [hf.owner_new] at hj
      have hq : q < h.size := by
        have hne : q ≠ h.size := fun he => hw.acyclic h.size (.of_owner (he ▸ hf.owner_new.trans hj))
        exact (hf.lt_or_eq (hw.owner_lt (hf.owner_new.trans hj))).resolve_right hne
      rw [hf.kind_new, hf.kind_of_lt hq]
      exact hk q hj
  attached {j} hlt hj := by
    rcases hf.lt_or_eq hlt with hlt | rfl
    · rw [hf.owner_of_lt hlt] at hj
      rw [hf.kind_of_lt hlt]
      exact ho.attached hlt hj
    · exact absurd (hf.owner_new.symm.trans hj) ha

theorem putNamespace (hk : e.kind = .ns) : (h.putNamespace e).Orderly :=
  ho.of_fresh .putNamespace (ho.toWellFormed.putNamespace hk) (by simp) (by simp)

theorem putEnum (hk : e.kind = .enum) : (h.putEnum e).Orderly :=
  ho.of_fresh .putEnum (ho.toWellFormed.putEnum hk) (by simp) (by simp)

theorem putBelow (hp : p < h.size) (hk : (h.kind p).mayOwn e.kind) : (h.putBelow p e).Orderly := by
  refine ho.of_fresh .putBelow (ho.toWellFormed.putBelow hp) (by simp) ?_
  intro q hq
  cases hq
  exact hk

theorem move (hp : p < h.size) (hc : c < h.size) (hpc : p ≠ c) (hcp : ¬ h.Above c p)
    (hk : (h.kind p).mayOwn (h.kind c)) : (h.move p c).Orderly where
  toWellFormed := ho.toWellFormed.move hp hc hpc hcp
  fits {j q} hj := by
    rw [owner_move hc] at hj
    rw [kind_move, kind_move]
    split at hj
    next he =>
      cases hj
      rwa [he]
    next => exact ho.fits hj
  attached {j} hlt hj := by
    rw [owner_move hc] at hj
    split at hj
    · cases hj
    · rw [kind_move]
      exact ho.attached (size_move (h := h) ▸ hlt) hj

theorem detach (hk : h.kind i = .implements) : (h.detach i).Orderly where
  toWellFormed := ho.toWellFormed.detach
  fits {j q} hj := by
    rw [owner_detach] at hj
    rw [kind_detach, kind_detach]
    split at hj
    · cases hj
    · exact ho.fits hj
  attached {j} hlt hj := by
    rw [owner_detach] at hj
    rw [kind_detach]
    split at hj
    next he => rwa [he]
    next => exact ho.attached (size_detach (h := h) ▸ hlt) hj

/-- What is neither a namespace nor an enum stands below an element, unless it was taken out. -/
theorem exists_owner (hi : h.owner i ≠ .detached) (hns : h.kind i ≠ .ns) (henum : h.kind i ≠ .enum) :
    ∃ q, h.owner i = .element q := by
  cases howner : h.owner i with
  | element q => exact ⟨q, rfl⟩
  | root =>
    rcases ho.listed howner with hlisted | hlisted
    · exact absurd (ho.mem_namespaces.1 hlisted).1 hns
    · exact absurd (ho.of_mem_enums hlisted).2 henum
  | detached => exact absurd howner hi

/-- Nothing stands below an element that was taken out. -/
theorem owner_ne_detached_of_owns (hi : h.owner i = .element p) : h.owner p ≠ .detached := by
  intro hp
  have hfit := ho.fits hi
  rw [ho.attached (ho.owner_lt hi) hp] at hfit
  exact absurd hfit (by simp [Kind.mayOwn])

/-- What stands above an element of the hierarchy was not taken out either. -/
theorem attached_of_covers (hc : h.Covers p i) (hi : h.owner i ≠ .detached) :
    h.owner p ≠ .detached := by
  rcases hc with rfl | ha
  · exact hi
  · induction ha with
    | single hs => exact ho.owner_ne_detached_of_owns hs
    | tail _ hs ih => exact ih (ho.owner_ne_detached_of_owns hs)

/-- Everything that was not taken out is reached from the top. -/
theorem mem_walkAll_iff : i ∈ h.walkAll ↔ h.owner i ≠ .detached := by
  rw [ho.mem_walkAll]
  constructor
  · intro htop hi
    rw [top_eq_self (by simp [hi]), hi] at htop
    cases htop
  · intro hi
    induction i using ho.owner_induction with
    | step i ih =>
      cases hio : h.owner i with
      | root => rw [top_eq_self (by simp [hio]), hio]
      | element p =>
        rw [ho.top_of_owner hio]
        exact ih p hio (ho.owner_ne_detached_of_owns hio)
      | detached => exact absurd hio hi

theorem lt_size_of_mem_walkAll (hi : i ∈ h.walkAll) : i < h.size :=
  lt_size_of_owner_ne (ho.mem_walkAll_iff.1 hi)

end Orderly

end Hierarchy

namespace Index

/-- Every entry leads to a type or a namespace of the hierarchy and knows its kind. -/
def PointsInto (ix : Index) (h : Hierarchy) : Prop :=
  ∀ ⦃t : Table⦄ ⦃k : String⦄ ⦃e : Entry⦄, (ix.table t).get? k = some e →
    e.id < h.size ∧ h.kind e.id = e.kind ∧ (e.kind.isType = true ∨ e.kind = .ns)

variable {ix : Index} {h h' : Hierarchy} {name : String} {hint : Option Kind} {e : Entry}

theorem exists_get?_of_lookupIn {es : Entries} (he : lookupIn es name hint = some e) :
    ∃ k, es.get? k = some e := by
  unfold lookupIn at he
  dsimp only at he
  split at he
  · exact ⟨_, he⟩
  · split at he
    · exact ⟨_, he⟩
    · rw [Option.or_eq_some_iff] at he
      rcases he with he | ⟨-, he⟩ <;> exact ⟨_, he⟩

theorem exists_get?_of_lookup? (he : ix.lookup? name hint = some e) :
    ∃ t k, (ix.table t).get? k = some e := by
  rw [lookup?, Option.or_eq_some_iff] at he
  rcases he with he | ⟨-, he⟩
  · exact ⟨.native, exists_get?_of_lookupIn he⟩
  · exact ⟨.managed, exists_get?_of_lookupIn he⟩

theorem PointsInto.empty {policy : ClashPolicy} : ({ policy } : Index).PointsInto h := by
  intro t k e he
  cases t <;> simp [table, KeyedList.get?] at he

theorem PointsInto.mono (hp : ix.PointsInto h) (hs : h.size ≤ h'.size)
    (hk : ∀ i < h.size, h'.kind i = h.kind i) : ix.PointsInto h' := by
  intro t k e he
  obtain ⟨hlt, hkind, ht⟩ := hp he
  exact ⟨Nat.lt_of_lt_of_le hlt hs, (hk _ hlt).trans hkind, ht⟩

section Insert
variable {r r' : Registry} {i : ElementId}

theorem PointsInto.insert {t : Table} {key : String} {k : Kind} (hp : r.index.PointsInto h)
    (hi : i < h.size) (hk : h.kind i = k) (ht : k.isType = true ∨ k = .ns)
    (hr : Registry.insert t key ⟨i, k⟩ r = .ok () r') : r'.index.PointsInto h := by
  intro u key' e he
  rcases Registry.get?_of_insert hr he with he | ⟨-, rfl, -⟩
  · exact hp he
  · exact ⟨hi, hk, ht⟩

theorem PointsInto.addNative {x : Element} (hp : r.index.PointsInto h) (hi : i < h.size)
    (hk : h.kind i = x.kind) (ht : x.isType = true ∨ x.kind = .ns)
    (hr : Registry.addNative i x r = .ok () r') : r'.index.PointsInto h :=
  hp.insert hi hk ht hr

theorem PointsInto.addManaged {x : Element} (hp : r.index.PointsInto h) (hi : i < h.size)
    (hk : h.kind i = x.kind) (ht : x.isType = true ∨ x.kind = .ns)
    (hr : Registry.addManaged i x r = .ok () r') : r'.index.PointsInto h := by
  unfold Registry.addManaged at hr
  split at hr
  · cases hr
    exact hp
  · exact hp.insert hi hk ht hr

end Insert

end Index

structure Draft.Sound (d : Draft) : Prop where
  orderly : d.hierarchy.Orderly
  points : d.registry.index.PointsInto d.hierarchy

namespace Draft.Sound

variable {d : Draft} (hd : d.Sound)
include hd

/-- Work on the hierarchy that keeps the elements and their kinds. -/
theorem extend {h : Hierarchy} (ho : h.Orderly) (hs : d.hierarchy.size ≤ h.size)
    (hk : ∀ i < d.hierarchy.size, h.kind i = d.hierarchy.kind i) :
    ({ d with hierarchy := h } : Draft).Sound :=
  ⟨ho, hd.points.mono hs hk⟩

theorem same {h : Hierarchy} (hs : d.hierarchy.SamePlaces h) :
    ({ d with hierarchy := h } : Draft).Sound :=
  hd.extend (hs.orderly hd.orderly) (Nat.le_of_eq hs.size.symm) fun _ _ => by rw [hs.kind]

theorem lookup {name : String} {hint : Option Kind} {e : Entry}
    (he : d.registry.index.lookup? name hint = some e) :
    e.id < d.hierarchy.size ∧ d.hierarchy.kind e.id = e.kind ∧
      (e.kind.isType = true ∨ e.kind = .ns) := by
  obtain ⟨t, k, he⟩ := Index.exists_get?_of_lookup? he
  exact hd.points he

omit hd

/-- Steps that keep drafts sound: what each of them keeps of a sound draft, all of them together
keep. -/
theorem induction {R : Draft → Draft → Prop} {I : Draft → Prop} {d' : Draft}
    (sound : ∀ {d d' : Draft}, R d d' → d.Sound → d'.Sound)
    (step : ∀ {d d' : Draft}, R d d' → d.Sound → I d → I d')
    (hs : Relation.ReflTransGen R d d') (hd : d.Sound) (hI : I d) : d'.Sound ∧ I d' := by
  induction hs with
  | refl => exact ⟨hd, hI⟩
  | tail _ hs ih => exact ⟨sound hs ih.1, step hs ih.1 ih.2⟩

theorem of_steps {R : Draft → Draft → Prop} {d' : Draft}
    (sound : ∀ {d d' : Draft}, R d d' → d.Sound → d'.Sound)
    (hs : Relation.ReflTransGen R d d') (hd : d.Sound) : d'.Sound :=
  (induction (I := fun _ => True) sound (fun _ _ _ => trivial) hs hd trivial).1

end Draft.Sound

end BindingTree

import BindingTree.Proofs.Build.Twins

/-! Where types are nested does not depend on the order in which a namespace lists them. Drafts that
are alike stay so while supporting types are added, and as the place of a type is a function of the
draft before types are nested, it is the same in both. -/

namespace BindingTree

open Build
open Naming (splitLast)
open Relation (ReflTransGen)

variable {p : Plan} {rs rs' : List Record} {s : Settings} {R : Pairing} {d d' d₁ d₂ : Draft}
  {h h' : Hierarchy} {i j : ElementId} {l : Listing}

/-! ### Nesting in drafts that are alike -/

theorem native_under {e e' : Element} (owner : String) (he : e.native = e'.native) :
    (under owner e).native = (under owner e').native := by
  unfold under
  rw [Hierarchy.fullName_of_native he]
  split
  next name _ =>
    change (e.kind, name, e'.fullName, e.isBound) = (e'.kind, name, e'.fullName, e'.isBound)
    have hkind : e.kind = e'.kind := congrArg Prod.fst he
    rw [hkind, Hierarchy.isBound_of_native he]
  next => exact he

namespace Alike

variable (ha : Alike R d d') (hr : R i j)
include ha hr

theorem mem_listedTypes (hi : i ∈ listedTypes d.hierarchy) : j ∈ listedTypes d'.hierarchy := by
  obtain ⟨ns, hns, ho⟩ := (Build.mem_listedTypes ha.sound.orderly.toWellFormed).1 hi
  obtain ⟨q, hq, hnsq⟩ := ha.owner_element hr ho
  obtain ⟨hkind, hroot⟩ := ha.sound.orderly.mem_namespaces.1 hns
  refine (Build.mem_listedTypes ha.sound'.orderly.toWellFormed).2
    ⟨q, ha.sound'.orderly.mem_namespaces.2 ⟨(ha.kind hnsq).symm.trans hkind, ?_⟩, hq⟩
  have hplaced := ha.owner hnsq
  rw [hroot] at hplaced
  generalize d'.hierarchy.owner q = o at hplaced ⊢
  cases hplaced
  rfl

theorem qualifierTarget? :
    Option.Rel (Matches R) (Build.qualifierTarget? d i) (Build.qualifierTarget? d' j) := by
  unfold Build.qualifierTarget?
  rw [← ha.fullName hr]
  cases (splitLast (d.hierarchy.fullName i)).1 with
  | none => exact .none
  | some qualifier => exact ha.lookup? qualifier none

theorem resolves (hres : Resolves d i) : Resolves d' j := by
  unfold Resolves at hres ⊢
  have htarget := ha.qualifierTarget? hr
  rw [← ha.fullName hr]
  intro hq hnone
  generalize Build.qualifierTarget? d i = e at hres htarget
  rw [hnone] at htarget
  cases htarget
  exact hres hq rfl

theorem nest? (accept : Kind → Bool) :
    Option.Rel R (Build.nest? accept d i) (Build.nest? accept d' j) := by
  unfold Build.nest?
  have htarget := ha.qualifierTarget? hr
  generalize Build.qualifierTarget? d i = e at htarget ⊢
  generalize Build.qualifierTarget? d' j = e' at htarget ⊢
  cases htarget with
  | none => exact .none
  | @some e e' hm =>
    have hid : (e.id ≠ i) = (e'.id ≠ j) := by rw [ne_eq, ha.unique hm.1 hr]
    simp only [Option.bind_some, hid, ha.kind hm.1]
    split
    · exact .some hm.1
    · exact .none

/-- Corresponding types are nested in corresponding places and under one name. -/
theorem nested (ht : TypesNested d h) (ht' : TypesNested d' h') :
    (h.element i).native = (h'.element j).native ∧ Placed R (h.owner i) (h'.owner j) := by
  have hnest := ha.nest? hr Kind.isClass
  by_cases hi : i ∈ listedTypes d.hierarchy
  · have hj := ha.mem_listedTypes hr hi
    cases hp : Build.nest? Kind.isClass d i with
    | none =>
      rw [hp] at hnest
      have hq : Build.nest? Kind.isClass d' j = none := by
        generalize Build.nest? Kind.isClass d' j = o at hnest ⊢
        cases hnest
        rfl
      obtain ⟨howner, helement⟩ := ht.stayed fun _ => hp
      obtain ⟨howner', helement'⟩ := ht'.stayed fun _ => hq
      rw [howner, helement, howner', helement']
      exact ⟨ha.native hr, ha.owner hr⟩
    | some p =>
      rw [hp] at hnest
      obtain ⟨q, hq, hpq⟩ : ∃ q, Build.nest? Kind.isClass d' j = some q ∧ R p q := by
        generalize Build.nest? Kind.isClass d' j = o at hnest ⊢
        cases hnest with
        | some hpq => exact ⟨_, rfl, hpq⟩
      obtain ⟨howner, helement⟩ := ht.moved hi hp
      obtain ⟨howner', helement'⟩ := ht'.moved hj hq
      rw [howner, helement, howner', helement', ha.fullName hpq]
      exact ⟨native_under _ (ha.native hr), .element hpq⟩
  · have hj : j ∉ listedTypes d'.hierarchy := fun hj => hi (ha.symm.mem_listedTypes hr hj)
    obtain ⟨howner, helement⟩ := ht.stayed fun hmem => absurd hmem hi
    obtain ⟨howner', helement'⟩ := ht'.stayed fun hmem => absurd hmem hj
    rw [howner, helement, howner', helement']
    exact ⟨ha.native hr, ha.owner hr⟩

end Alike

/-- Nesting types succeeds on both of two drafts that are alike or on neither. -/
theorem exists_nestTypes_of_alike (ha : Alike R d d') (hn : Nestable d) (hn' : Nestable d')
    (hd : nestTypes d = .ok () d₁) : ∃ d₂, nestTypes d' = .ok () d₂ := by
  have hres := hn.exists_nestTypes_iff.1 ⟨d₁, hd⟩
  refine hn'.exists_nestTypes_iff.2 fun j hj => ?_
  have hlt := lt_size_of_mem_listedTypes hn'.sound.orderly.toWellFormed hj
  have hindexed : (d'.hierarchy.kind j).isIndexed = true := by
    rw [Kind.isIndexed, isType_of_mem_listedTypes hn'.sound hj, Bool.true_or]
  obtain ⟨i, hr⟩ := ha.right j (Hierarchy.mem_indexed.2 ⟨hlt, hindexed⟩)
  exact ha.resolves hr (hres i (ha.symm.mem_listedTypes hr hj))

/-! ### The types of records -/

namespace Hierarchy

/-- An element stands for the record of a type with a full name. -/
structure Stands (h : Hierarchy) (name : String) (i : ElementId) : Prop where
  lt_size : i < h.size
  isBound : (h.element i).isBound = true
  isType : (h.kind i).isType = true
  fullName : h.fullName i = name

variable {name : String} {o : Owner} {e : Element}

theorem Stands.congr (hs : h.Stands name i) (hlt : i < h'.size)
    (he : (h'.element i).isBound = (h.element i).isBound) (hk : h'.kind i = h.kind i)
    (hn : h'.fullName i = h.fullName i) : h'.Stands name i :=
  ⟨hlt, he.trans hs.isBound, hk ▸ hs.isType, hn.trans hs.fullName⟩

theorem Fresh.stands_iff (hf : Fresh h h' o e) (he : e.isBound = false) :
    h'.Stands name i ↔ h.Stands name i := by
  constructor
  · intro hs
    rcases hf.lt_or_eq hs.lt_size with hlt | rfl
    · exact hs.congr hlt (by rw [hf.element_of_lt hlt]) (hf.kind_of_lt hlt).symm
        (hf.fullName_of_lt hlt).symm
    · have hb := hs.isBound
      rw [hf.element_new, he] at hb
      cases hb
  · intro hs
    exact hs.congr (Nat.lt_trans hs.lt_size hf.size_lt) (by rw [hf.element_of_lt hs.lt_size])
      (hf.kind_of_lt hs.lt_size) (hf.fullName_of_lt hs.lt_size)

theorem SameNative.stands_iff (hs : h.SameNative h') : h'.Stands name i ↔ h.Stands name i := by
  have hbound : (h'.element i).isBound = (h.element i).isBound := isBound_of_native (hs.native i)
  have hkind : h'.kind i = h.kind i := congrFun hs.kind i
  have hname : h'.fullName i = h.fullName i := fullName_of_native (hs.native i)
  constructor
  · intro hst
    exact hst.congr (hs.size ▸ hst.lt_size) hbound.symm hkind.symm hname.symm
  · intro hst
    exact hst.congr (hs.size.symm ▸ hst.lt_size) hbound hkind hname

/-- Two elements stand at the top, or below elements of one kind and one full name. -/
def SameSite (h h' : Hierarchy) (i j : ElementId) : Prop :=
  h.owner i = .root ∧ h'.owner j = .root ∨ ∃ p q, h.owner i = .element p ∧
    h'.owner j = .element q ∧ h.kind p = h'.kind q ∧ h.fullName p = h'.fullName q

end Hierarchy

theorem stands_of_support {name : String} (hst : Support s d d') :
    d'.hierarchy.Stands name i ↔ d.hierarchy.Stands name i := by
  cases hst with
  | ns hn hr => exact Hierarchy.Fresh.putNamespace.stands_iff rfl
  | give hne => exact Hierarchy.SameNative.stands_iff (.modify fun _ => rfl)
  | type hns hk hr => exact Hierarchy.Fresh.putBelow.stands_iff rfl

theorem Build.TypesNested.stands_iff {name : String} (ht : TypesNested d h) :
    h.Stands name i ↔ d.hierarchy.Stands name i :=
  ⟨fun hs => hs.congr (ht.size ▸ hs.lt_size) ht.isBound.symm ht.kind.symm ht.fullName.symm,
    fun hs => hs.congr (ht.size.symm ▸ hs.lt_size) ht.isBound ht.kind ht.fullName⟩

/-! ### The first three passes -/

/-- The passes of a build from records to nested types. -/
def Plan.arrange (p : Plan) (rs : List Record) : Build Unit := do
  Build.ingest rs
  Build.bootstrap p.settings
  Build.nestTypes

/-- What the first three passes go through when they succeed. -/
structure Arranged (p : Plan) (rs : List Record) (ingested supported arranged : Draft) : Prop where
  ingest : ingest rs p.blank = .ok () ingested
  sound : ingested.Sound
  bootstrap : bootstrap p.settings ingested = .ok () supported
  support : ReflTransGen (Support p.settings) ingested supported
  nestable : Nestable supported
  nestTypes : nestTypes supported = .ok () arranged
  nested : TypesNested supported arranged.hierarchy

theorem arranged_of_arrange (hd : p.arrange rs p.blank = .ok () d) :
    ∃ d₁ d₂, Arranged p rs d₁ d₂ d := by
  obtain ⟨_, d₁, hingest, hrest⟩ := bind_ok.1 hd
  obtain ⟨_, d₂, hbootstrap, hnest⟩ := bind_ok.1 hrest
  have hn₁ := nestable_of_ingest hingest
  have hsupport := bootstrap_ok hn₁.sound hbootstrap
  have hn₂ := nestable_of_support hsupport hn₁
  obtain ⟨-, h, rfl, hnested⟩ := nestTypes_ok hn₂.sound hn₂.noInvoker hnest
  exact ⟨d₁, d₂, hingest, hn₁.sound, hbootstrap, hsupport, hn₂, hnest, hnested⟩

theorem Arranged.arrange {d₃ : Draft} (har : Arranged p rs d₁ d₂ d₃) :
    p.arrange rs p.blank = .ok () d₃ :=
  bind_ok.2 ⟨(), d₁, har.ingest, bind_ok.2 ⟨(), d₂, har.bootstrap, har.nestTypes⟩⟩

/-- The first three passes succeed on the other of two forests too, over a draft that is alike. -/
theorem Arranged.exists_twin {d₃ : Draft} (har : Arranged p rs d₁ d₂ d₃)
    (hperm : (rs.flatMap Record.listings).Perm (rs'.flatMap Record.listings))
    (hns : (rs.flatMap Record.listings).filter (·.kind = .ns) =
      (rs'.flatMap Record.listings).filter (·.kind = .ns))
    (hn : ((rs.flatMap Record.listings).map Listing.fullName).Nodup) :
    ∃ S d₁' d₂' d₃', Arranged p rs' d₁' d₂' d₃' ∧ Alike S d₂ d₂' := by
  obtain ⟨d₁', hingest, htwins⟩ := BindingTree.exists_twin hperm hns hn har.ingest
  obtain ⟨S, d₂', hbootstrap, halike⟩ := htwins.alike.bootstrap har.bootstrap
  have hn₁ := nestable_of_ingest hingest
  have hsupport := bootstrap_ok hn₁.sound hbootstrap
  have hn₂ := nestable_of_support hsupport hn₁
  obtain ⟨d₃', hnest⟩ := exists_nestTypes_of_alike halike har.nestable hn₂ har.nestTypes
  obtain ⟨-, h, rfl, hnested⟩ := nestTypes_ok hn₂.sound hn₂.noInvoker hnest
  exact ⟨S, d₁', d₂', _, ⟨hingest, hn₁.sound, hbootstrap, hsupport, hn₂, hnest, hnested⟩, halike⟩

namespace Arranged

variable {d₃ d₁' d₂' d₃' : Draft}

theorem stands_iff {name : String} (har : Arranged p rs d₁ d₂ d₃) :
    d₃.hierarchy.Stands name i ↔ d₁.hierarchy.Stands name i := by
  refine har.nested.stands_iff.trans ?_
  have hsteps := har.support
  clear har
  induction hsteps with
  | refl => rfl
  | tail _ hst ih => exact (stands_of_support hst).trans ih

/-- The one element for a listed type. -/
theorem exists_stands (har : Arranged p rs d₁ d₂ d₃)
    (hn : ((rs.flatMap Record.listings).map Listing.fullName).Nodup)
    (hl : l ∈ rs.flatMap Record.listings) (hk : l.kind.isType = true) :
    ∃ i, ∀ k, d₃.hierarchy.Stands l.fullName k ↔ k = i := by
  have ht := taking_of_ingest har.ingest
  rw [← ht.listings, List.append_nil] at hl hn
  obtain ⟨i, hi, rfl⟩ := List.mem_map.1 hl
  have hlt := (Hierarchy.mem_indexed.1 hi).1
  refine ⟨i, fun k => har.stands_iff.trans ⟨fun hst => ?_, ?_⟩⟩
  · have hindexed : k ∈ d₁.hierarchy.indexed :=
      Hierarchy.mem_indexed.2 ⟨hst.lt_size, by rw [Kind.isIndexed, hst.isType, Bool.true_or]⟩
    exact Build.eq_of_fullName hn hindexed hi hst.fullName
  · rintro rfl
    exact ⟨hlt, isBound_of_ingest har.ingest hlt, hk, rfl⟩

/-- The elements for one record have the same names and stand below the same. -/
theorem sameSite_of_stands {S : Pairing} {name : String} (har : Arranged p rs d₁ d₂ d₃)
    (har' : Arranged p rs' d₁' d₂' d₃') (ha : Alike S d₂ d₂')
    (hi : d₃.hierarchy.Stands name i) (hj : ∀ k, d₃'.hierarchy.Stands name k ↔ k = j) :
    (d₃.hierarchy.element i).name = (d₃'.hierarchy.element j).name ∧
      d₃.hierarchy.fullName i = d₃'.hierarchy.fullName j ∧
        d₃.hierarchy.SameSite d₃'.hierarchy i j := by
  have hst := har.nested.stands_iff.1 hi
  obtain ⟨k, hr⟩ := ha.left i (Hierarchy.mem_indexed.2
    ⟨hst.lt_size, by rw [Kind.isIndexed, hst.isType, Bool.true_or]⟩)
  have hk : d₂'.hierarchy.Stands name k := by
    refine ⟨(Hierarchy.mem_indexed.1 (ha.indexed hr).2).1, ?_, ?_, ?_⟩
    · rw [← hst.isBound, Hierarchy.isBound_of_native (ha.native hr)]
    · rw [← ha.kind hr, hst.isType]
    · rw [← ha.fullName hr, hst.fullName]
  obtain rfl := (hj k).1 (har'.nested.stands_iff.2 hk)
  obtain ⟨hnative, hplaced⟩ := ha.nested hr har.nested har'.nested
  refine ⟨Hierarchy.name_of_native hnative, Hierarchy.fullName_of_native hnative, ?_⟩
  generalize ho : d₃.hierarchy.owner i = o at hplaced
  generalize ho' : d₃'.hierarchy.owner k = o' at hplaced
  cases hplaced with
  | root => exact .inl ⟨ho, ho'⟩
  | @element a b hab =>
    refine .inr ⟨a, b, ho, ho', ?_, ?_⟩
    · rw [har.nested.kind, har'.nested.kind, ha.kind hab]
    · rw [har.nested.fullName, har'.nested.fullName, ha.fullName hab]

end Arranged

/-- Whatever the order in which namespaces list their types, the first three passes succeed or fail
alike, and nest the type of each record in the same place and under the same name, if no two types
or namespaces of the records have the same full name. -/
theorem arrange_of_shuffled (hs : Record.Shuffled rs rs')
    (hn : ((rs.flatMap Record.listings).map Listing.fullName).Nodup) :
    ((∃ d, p.arrange rs p.blank = .ok () d) ↔ ∃ d', p.arrange rs' p.blank = .ok () d') ∧
      ∀ d d', p.arrange rs p.blank = .ok () d → p.arrange rs' p.blank = .ok () d' →
        ∀ l ∈ rs.flatMap Record.listings, l.kind.isType = true → ∃ i j,
          (∀ k, d.hierarchy.Stands l.fullName k ↔ k = i) ∧
            (∀ k, d'.hierarchy.Stands l.fullName k ↔ k = j) ∧
              (d.hierarchy.element i).name = (d'.hierarchy.element j).name ∧
                d.hierarchy.fullName i = d'.hierarchy.fullName j ∧
                  d.hierarchy.SameSite d'.hierarchy i j := by
  have hperm := hs.perm_listings
  have hns := hs.filter_ns_listings
  have hn' : ((rs'.flatMap Record.listings).map Listing.fullName).Nodup :=
    (hperm.map _).nodup_iff.1 hn
  refine ⟨⟨?_, ?_⟩, ?_⟩
  · rintro ⟨d, hd⟩
    obtain ⟨d₁, d₂, har⟩ := arranged_of_arrange hd
    obtain ⟨_, _, _, d', har', -⟩ := har.exists_twin hperm hns hn
    exact ⟨d', har'.arrange⟩
  · rintro ⟨d', hd'⟩
    obtain ⟨d₁, d₂, har⟩ := arranged_of_arrange hd'
    obtain ⟨_, _, _, d, har', -⟩ := har.exists_twin hperm.symm hns.symm hn'
    exact ⟨d, har'.arrange⟩
  · intro d d' hd hd' l hl hk
    obtain ⟨d₁, d₂, har⟩ := arranged_of_arrange hd
    obtain ⟨S, d₁', d₂', d₃', har', halike⟩ := har.exists_twin hperm hns hn
    obtain rfl : d₃' = d' := by
      have hsame := har'.arrange.symm.trans hd'
      cases hsame
      rfl
    obtain ⟨i, hi⟩ := har.exists_stands hn hl hk
    obtain ⟨j, hj⟩ := har'.exists_stands hn' (hperm.mem_iff.1 hl) hk
    exact ⟨i, j, hi, hj, har.sameSite_of_stands har' halike ((hi i).2 rfl) hj⟩

/-- The sample with the types of its namespace the other way round. -/
def reversedSample : List Record :=
  [.plain (.ns {}) "a.b"
    [.plain (.iface {}) "Face" [.plain (.field {}) "LIMIT" []],
      .plain (.cls {}) "Outer.Inner" [.plain (.implements {}) "a.b.Face" []],
      .plain (.cls {}) "Outer" [.plain (.method {}) "run" [.plain (.param {}) "p" []]]],
    .plain (.enum {}) "a.b.Outer.Mode" [.plain (.field {}) "ON" []],
    .plain (.enum {}) "Lone" []]

theorem shuffled_reversedSample : Record.Shuffled sampleRecords reversedSample :=
  .ns rfl (.refl _) (List.reverse_perm _).symm (.refl _)

theorem exists_arrange_of_passes (hd : p.passes rs p.blank = .ok () d') :
    ∃ d, p.arrange rs p.blank = .ok () d := by
  obtain ⟨_, d₁, hingest, hrest₁⟩ := bind_ok.1 hd
  obtain ⟨_, d₂, hbootstrap, hrest₂⟩ := bind_ok.1 hrest₁
  obtain ⟨_, d₃, hnest, -⟩ := bind_ok.1 hrest₂
  exact ⟨d₃, bind_ok.2 ⟨(), d₁, hingest, bind_ok.2 ⟨(), d₂, hbootstrap, hnest⟩⟩⟩

theorem arrange_of_reversedSample : Record.Shuffled sampleRecords reversedSample ∧
    ((sampleRecords.flatMap Record.listings).map Listing.fullName).Nodup ∧ ∃ d d',
      samplePlan.arrange sampleRecords samplePlan.blank = .ok () d ∧
        samplePlan.arrange reversedSample samplePlan.blank = .ok () d' ∧ ∃ i j,
          d.hierarchy.Stands "a.b.Outer.Inner" i ∧ d'.hierarchy.Stands "a.b.Outer.Inner" j ∧
            (d.hierarchy.element i).name = (d'.hierarchy.element j).name ∧
              d.hierarchy.SameSite d'.hierarchy i j := by
  have hs := shuffled_reversedSample
  have hn : ((sampleRecords.flatMap Record.listings).map Listing.fullName).Nodup := by
    decide +kernel
  obtain ⟨hiff, hall⟩ := arrange_of_shuffled (p := samplePlan) hs hn
  obtain ⟨h, hb, -⟩ := exists_built samplePlan sampleRecords (fun _ => true) (by decide +kernel)
  obtain ⟨d₀, hpasses, -⟩ := build_ok hb
  obtain ⟨d, hd⟩ := exists_arrange_of_passes hpasses
  obtain ⟨d', hd'⟩ := hiff.1 ⟨d, hd⟩
  obtain ⟨i, j, hi, hj, hname, -, hsite⟩ := hall d d' hd hd'
    ⟨.cls, "Outer.Inner", "a.b.Outer.Inner", some "a.b"⟩ (by decide +kernel) rfl
  exact ⟨hs, hn, d, d', hd, hd', i, j, (hi i).2 rfl, (hj j).2 rfl, hname, hsite⟩

end BindingTree

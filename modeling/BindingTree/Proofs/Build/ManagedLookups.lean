import BindingTree.Proofs.Build.KeptEntries
import BindingTree.Proofs.Build.Renderings
import BindingTree.Proofs.Build.SharedNames
import BindingTree.Proofs.Build.Stocked
import Mathlib.Data.List.Flatten

/-! Looking managed names up once enums are nested. A managed name that one element alone has leads to
this element, if it is not empty, with one exception. Enums at the top that have one managed name
share the key of it, and the last one has it; if that one is nested, the key goes with it, and the
others are not to be found under their managed name. -/

namespace BindingTree

open Build
open Naming (Translator)
open Relation (ReflTransGen)

/-- An enum at the top that loses the key of its managed name: a later enum had this name there too
before it was nested, and the full name of the enum is another one. -/
structure Hierarchy.Bereft (h : Hierarchy) (e : ElementId) : Prop where
  enum : h.kind e = .enum
  top : h.owner e = .root
  apart : h.fullName e ≠ h.called .managed e
  later : ∃ i q, [e, i].Sublist h.enums ∧ h.owner i = .element q ∧
    (h.element i).managedName = some (h.called .managed e)

variable {p : Plan} {rs : List Record} {d d₁ d₂ d₃ d₄ d₅ : Draft} {i j e w : ElementId} {u : Table}
  {A B : List ElementId} {x : Entry}

/-! ### The order of a traversal -/

section Order
variable {α : Type} {a b : α} {l₁ l₂ l : List α}

/-- What comes before an element of a list without repetitions is in front of it. -/
theorem mem_of_before (hn : (l₁ ++ b :: l₂).Nodup) (hab : [a, b].Sublist (l₁ ++ b :: l₂)) :
    a ∈ l₁ := by
  obtain ⟨s₁, s₂, heq, hs₁, hs₂⟩ := List.sublist_append_iff.1 hab
  cases s₁ with
  | nil =>
    obtain rfl : [a, b] = s₂ := heq
    have hb : b ∉ l₂ := (List.nodup_cons.1 hn.of_append_right).1
    cases hs₂ with
    | cons _ hs => exact absurd (hs.subset (by simp)) hb
    | cons_cons _ hs => exact absurd (hs.subset (by simp)) hb
  | cons c s₁ =>
    obtain ⟨rfl, -⟩ := List.cons.inj heq
    exact hs₁.subset List.mem_cons_self

theorem before_or_after (ha : a ∈ l) (hb : b ∈ l) (hne : a ≠ b) :
    [a, b].Sublist l ∨ [b, a].Sublist l := by
  have hpair : l.Pairwise fun a b => [a, b].Sublist l ∨ [b, a].Sublist l :=
    List.pairwise_iff_forall_sublist.2 .inl
  have : Std.Symm fun a b => [a, b].Sublist l ∨ [b, a].Sublist l := ⟨fun _ _ => Or.symm⟩
  exact hpair.forall ha hb hne

end Order

namespace Build

section Walk
variable (hs : d.Sound) (ht : EnumsOnTop d.hierarchy)
include hs ht

theorem eq_of_enum_mem_walk (hi : i < d.hierarchy.size) (hj : j ∈ d.hierarchy.walk i)
    (hk : d.hierarchy.kind j = .enum) : j = i := by
  refine ((hs.orderly.mem_walk hi).1 hj).resolve_right fun ha => ?_
  obtain ⟨q, hq⟩ := ha.exists_owner
  cases (ht hk).symm.trans hq

/-- Of all types and namespaces enums come last. -/
theorem pairwise_enums : d.hierarchy.walkAll.Pairwise fun a b =>
    d.hierarchy.kind a = .enum → b ∈ d.hierarchy.indexed → d.hierarchy.kind b = .enum := by
  have ho := hs.orderly
  have hroot : ∀ {i}, i ∈ d.hierarchy.namespaces ++ d.hierarchy.rootEnums → i < d.hierarchy.size :=
    fun hi => Hierarchy.lt_size_of_owner_ne (by simp [ho.owner_of_mem_tops hi])
  -- An enum is first in its walk, and no type or namespace is below it.
  have hwalk : ∀ {i b}, i < d.hierarchy.size → d.hierarchy.kind i = .enum →
      b ∈ d.hierarchy.walk i → b ∈ d.hierarchy.indexed → d.hierarchy.kind b = .enum := by
    intro i b hi hk hb hindexed
    rcases (ho.mem_walk hi).1 hb with rfl | ha
    · exact hk
    · exact absurd (Hierarchy.mem_indexed.1 hindexed).2 (not_isIndexed_of_above hs hk ha)
  have htops : (d.hierarchy.namespaces ++ d.hierarchy.rootEnums).Pairwise fun a b =>
      d.hierarchy.kind a = .enum → d.hierarchy.kind b = .enum := by
    refine List.pairwise_append.2 ⟨List.pairwise_of_forall_mem_list fun a ha b hb hk => ?_,
      List.pairwise_of_forall_mem_list fun a ha b hb _ => (ho.mem_rootEnums.1 hb).1,
      fun a ha b hb _ => (ho.mem_rootEnums.1 hb).1⟩
    rw [(ho.mem_namespaces.1 ha).1] at hk
    cases hk
  rw [Hierarchy.walkAll, List.pairwise_flatMap]
  refine ⟨fun i hi => List.pairwise_of_forall_mem_list fun a ha b hb hk => ?_,
    htops.imp_of_mem fun {i j} hi hj hij a ha b hb hk => ?_⟩
  · obtain rfl := eq_of_enum_mem_walk hs ht (hroot hi) ha hk
    exact hwalk (hroot hi) hk hb
  · obtain rfl := eq_of_enum_mem_walk hs ht (hroot hi) ha hk
    exact hwalk (hroot hj) (hij hk) hb

omit ht in
/-- Enums at the top are traversed in their order. -/
theorem before_walkAll (hi : i ∈ d.hierarchy.rootEnums) (hj : j ∈ d.hierarchy.rootEnums)
    (hij : [i, j].Sublist d.hierarchy.enums) : [i, j].Sublist d.hierarchy.walkAll := by
  have hself : ∀ {i}, i ∈ d.hierarchy.rootEnums → [i].Sublist (d.hierarchy.walk i) := fun hi => by
    rw [List.singleton_sublist, hs.orderly.mem_walk (lt_size_of_mem_rootEnums hs _ hi)]
    exact .refl _ _
  have hroot : [i, j].Sublist d.hierarchy.rootEnums := by
    have hfilter := hij.filter (d.hierarchy.owner · = .root)
    rwa [List.filter_eq_self.2 ?_] at hfilter
    simp [(hs.orderly.mem_rootEnums.1 hi).2, (hs.orderly.mem_rootEnums.1 hj).2]
  have hwalks := (hroot.trans (List.sublist_append_right d.hierarchy.namespaces _)).flatMap
    d.hierarchy.walk
  refine List.Sublist.trans ?_ hwalks
  rw [List.flatMap_cons, List.flatMap_cons, List.flatMap_nil, List.append_nil]
  exact (hself hi).append (hself hj)

end Walk

end Build

/-! ### A managed name that one element has -/

/-- Among types and namespaces one element alone has its managed name, which is not empty, and nothing
was put under it in a clash. -/
structure Draft.Alone (d : Draft) (e : ElementId) : Prop where
  mem : e ∈ d.hierarchy.indexed
  named : d.hierarchy.called .managed e ≠ ""
  names : ∀ i ∈ d.hierarchy.indexed, i ≠ e → ∀ u,
    d.hierarchy.called u i ≠ d.hierarchy.called .managed e
  plain : ∀ u, ¬ d.registry.Displaced u (d.hierarchy.called .managed e)

theorem Draft.Alone.get?_of_held (ha : d.Alone e)
    (hx : d.Held [] u (d.hierarchy.called .managed e) ⟨e, d.hierarchy.kind e⟩) :
    (d.registry.index.table u).get? (d.hierarchy.called .managed e) =
      some ⟨e, d.hierarchy.kind e⟩ := by
  rcases hx with hreaches | ⟨j, hj, -, hne, hcalled⟩
  · exact hreaches.resolve_left (ha.plain u)
  · exact absurd hcalled (ha.names j hj hne u)

/-- A key that is its managed name leads to no other element, and only where it is its name. -/
theorem Draft.Alone.of_get? (ha : d.Alone e) (hs : d.Sound) (hd : d.Upkept)
    (hget : (d.registry.index.table u).get? (d.hierarchy.called .managed e) = some x) :
    x.id = e ∧ d.hierarchy.called u e = d.hierarchy.called .managed e := by
  have hcalled := ((hd.traced hget).resolve_right (ha.plain u)).symm
  have hid : x.id = e := by
    by_contra hne
    exact ha.names x.id (mem_indexed_of_points hs.points hget) hne u hcalled
  exact ⟨hid, hid ▸ hcalled⟩

namespace Enclosed

/-- Something stands under the full native name of every type and namespace. -/
theorem taken_named (he : Enclosed p rs d₁ d₂ d₃ d₄ d₅) (hi : i ∈ d₄.hierarchy.indexed) :
    d₄.registry.index.Taken (d₄.hierarchy.fullName i) := by
  have hmem : i ∈ d₂.hierarchy.indexed := by
    rw [Hierarchy.mem_indexed, he.namedOver.size, he.namedOver.kind, he.types.size, he.types.kind,
      ← Hierarchy.mem_indexed] at hi
    exact hi
  have htaken := (he.allEntered_supported hmem).taken
  rw [← he.types.fullName, ← he.namedOver.fullName, ← he.types_registry] at htaken
  exact taken_of_upkeep he.upkeep_named htaken

/-- No type or namespace has an empty full name. -/
theorem fullName_ne_empty (he : Enclosed p rs d₁ d₂ d₃ d₄ d₅) (hi : i ∈ d₄.hierarchy.indexed) :
    d₄.hierarchy.fullName i ≠ "" := by
  intro hempty
  obtain ⟨x, hget⟩ := he.taken_named hi
  rw [hempty] at hget
  have hget : (d₄.registry.index.table .native).get? "" = some x := hget
  have hcalled := (he.upkept_named.traced hget).resolve_right fun hdis =>
    hdis.not_colonless List.not_mem_nil
  exact (he.upkept_named.filed hget).1 hcalled.symm

section Alone
variable (he : Enclosed p rs d₁ d₂ d₃ d₄ d₅) (ha : d₅.Alone e)
include he ha

theorem mem_named : e ∈ d₄.hierarchy.indexed := he.midway.indexed.1 ha.mem

theorem plain_named : ¬ d₄.registry.Displaced u (d₅.hierarchy.called .managed e) :=
  fun hd => ha.plain u (hd.mono he.midway.log)

/-- What has the name before enums are nested and not after is nested. -/
theorem mem_nestedEnums_of_called (hw : w ∈ d₄.hierarchy.indexed) (hne : w ≠ e)
    (hcalled : d₄.hierarchy.called u w = d₅.hierarchy.called .managed e) : w ∈ nestedEnums d₄ := by
  by_contra hnot
  rw [← he.called_kept hw hnot] at hcalled
  exact ha.names w (he.midway.indexed.2 hw) hne u hcalled

/-- If an enum has it at the top, the same full name leads there, too. -/
theorem get?_native (hroot : e ∈ d₄.hierarchy.rootEnums) (hstays : e ∉ nestedEnums d₄)
    (hname : d₅.hierarchy.fullName e = d₅.hierarchy.called .managed e) :
    d₅.registry.index.native.get? (d₅.hierarchy.called .managed e) =
      some ⟨e, d₅.hierarchy.kind e⟩ := by
  have hmem := he.mem_named ha
  have hkept : d₄.hierarchy.fullName e = d₅.hierarchy.called .managed e :=
    (he.called_kept (u := .native) hmem hstays).symm.trans hname
  obtain ⟨x, hget⟩ := he.taken_named hmem
  rw [hkept] at hget
  have hget : (d₄.registry.index.table .native).get? (d₅.hierarchy.called .managed e) = some x := hget
  have hmem' := mem_indexed_of_points he.sound_named.points hget
  have hcalled := ((he.upkept_named.traced hget).resolve_right (he.plain_named ha)).symm
  -- Another enum that has the full name at the top would be nested just as this one.
  have hid : x.id = e := by
    by_contra hne
    exact not_hidden_native hroot ⟨(he.sound_named.orderly.mem_rootEnums.1 hroot).1, hstays, x.id,
      he.mem_nestedEnums_of_called ha hmem' hne hcalled, hcalled.trans hkept.symm⟩
  have hx : x = ⟨e, d₅.hierarchy.kind e⟩ := by
    have hkind := (he.sound_named.points hget).2.1
    rw [hid, ← he.enums.kind] at hkind
    obtain ⟨id, kind⟩ := x
    exact Entry.mk.injEq .. ▸ ⟨hid, hkind.symm⟩
  exact ha.get?_of_held (u := .native) (he.held (.inr (hx ▸ hget)) hstays)

/-- An element that is not nested has the key if none of its kind got the name after it. -/
theorem get?_of_last (hl : d₄.hierarchy.walkAll = A ++ e :: B) (hstays : e ∉ nestedEnums d₄)
    (hlast : ∀ w ∈ B, w ∈ nestedEnums d₄ →
      d₄.hierarchy.called .managed w = d₅.hierarchy.called .managed e → d₅.hierarchy.kind e ≠ .enum) :
    d₅.registry.index.managed.get? (d₅.hierarchy.called .managed e) =
      some ⟨e, d₅.hierarchy.kind e⟩ := by
  have hmem := he.mem_named ha
  have hkept : d₄.hierarchy.called .managed e = d₅.hierarchy.called .managed e :=
    (he.called_kept hmem hstays).symm
  have hnodup := he.sound_named.orderly.nodup_walkAll
  rw [hl] at hnodup
  obtain ⟨-, htail, hdisjoint⟩ := List.nodup_append.1 hnodup
  -- Whatever else had the name is nested, and so it is an enum, which comes after other kinds.
  have hnested : ∀ {w}, w ≠ e → w ∈ d₄.hierarchy.indexed →
      d₄.hierarchy.called .managed w = d₄.hierarchy.called .managed e → w ∈ nestedEnums d₄ :=
    fun hne hw hcalled => he.mem_nestedEnums_of_called ha hw hne (hcalled.trans hkept)
  have hpairs := pairwise_enums he.sound_named he.enumsOnTop
  rw [hl, List.pairwise_append] at hpairs
  have hreaches := he.reaches_named hl hmem (hkept ▸ ha.named) (fun w hw hindexed hcalled => ?_)
    (fun w hw hindexed hcalled hkind => ?_)
  · rw [hkept, ← he.enums.kind] at hreaches
    exact ha.get?_of_held (u := .managed) (he.held hreaches hstays)
  · have hne : w ≠ e := fun h => hdisjoint w hw e List.mem_cons_self h
    have henum := kind_of_mem_nestedEnums he.sound_named (hnested hne hindexed hcalled)
    rw [henum, hpairs.2.2 w hw e List.mem_cons_self henum hmem]
  · have hne : w ≠ e := fun h => (List.nodup_cons.1 htail).1 (h ▸ hw)
    have hw' := hnested hne hindexed hcalled
    refine hlast w hw hw' (hcalled.trans hkept) ?_
    rw [he.enums.kind, ← hkind, kind_of_mem_nestedEnums he.sound_named hw']

omit ha in
/-- An enum at the top is bereft of its key if one that got the name after it is nested. -/
theorem bereft_of_later (hl : d₄.hierarchy.walkAll = A ++ e :: B) (hstays : e ∉ nestedEnums d₄)
    (henum : d₄.hierarchy.kind e = .enum) (hw : w ∈ B) (hnested : w ∈ nestedEnums d₄)
    (hcalled : d₄.hierarchy.called .managed w = d₅.hierarchy.called .managed e)
    (hname : d₅.hierarchy.fullName e ≠ d₅.hierarchy.called .managed e) : d₅.hierarchy.Bereft e := by
  have hs := he.sound_named
  have hroot := he.mem_rootEnums henum
  obtain ⟨hwroot, hsome⟩ := mem_nestedEnums.1 hnested
  obtain ⟨q, hq⟩ := Option.isSome_iff_exists.1 hsome
  have hnone : nest? ownsEnums d₄ e = none := by
    rw [← Option.not_isSome_iff_eq_none]
    exact fun h => hstays (mem_nestedEnums.2 ⟨hroot, h⟩)
  refine ⟨he.enums.kind ▸ henum, ?_, hname, w, q, ?_, (he.enums.moved hwroot hq).1, ?_⟩
  · rw [(he.enums.stayed fun _ => hnone).1, (hs.orderly.mem_rootEnums.1 hroot).2]
  · have hnodup := hs.orderly.nodup_walkAll
    rw [hl] at hnodup
    have hne : e ≠ w := fun h => hstays (h ▸ hnested)
    rw [he.enums.enums]
    refine (before_or_after (List.mem_filter.1 hroot).1 (List.mem_filter.1 hwroot).1 hne).resolve_right
      fun hbefore => ?_
    have hbefore := before_walkAll hs hwroot hroot hbefore
    rw [hl] at hbefore
    exact (List.nodup_append.1 hnodup).2.2 w (mem_of_before hnodup hbefore) w
      (List.mem_cons_of_mem e hw) rfl
  · rw [he.managedName_rootEnum hwroot, hcalled]

/-- The element is found, unless it is bereft of its key. -/
theorem lookup?_or_bereft : (∃ x, d₅.registry.index.lookup? (d₅.hierarchy.called .managed e) none =
    some x ∧ x.id = e) ∨ d₅.hierarchy.Bereft e := by
  have hmem := he.mem_named ha
  have hmanaged : d₅.registry.index.managed.get? (d₅.hierarchy.called .managed e) =
      some ⟨e, d₅.hierarchy.kind e⟩ →
        ∃ x, d₅.registry.index.lookup? (d₅.hierarchy.called .managed e) none = some x ∧ x.id = e := by
    intro hget
    rw [Index.lookup?, Index.lookupIn, Index.lookupIn, hget]
    cases hnative : d₅.registry.index.native.get? (d₅.hierarchy.called .managed e) with
    | some x => exact ⟨x, rfl, (ha.of_get? (u := .native) he.sound_enclosed he.upkept hnative).1⟩
    | none => exact ⟨_, rfl, rfl⟩
  by_cases hstays : e ∈ nestedEnums d₄
  · have hheld := he.held_nested hstays ha.named
    rw [← kind_of_mem_nestedEnums he.sound_named hstays, ← he.enums.kind] at hheld
    exact .inl (hmanaged (ha.get?_of_held (u := .managed) hheld))
  obtain ⟨A, B, hl⟩ := List.append_of_mem (he.mem_walkAll_named hmem)
  by_cases hlater : d₄.hierarchy.kind e = .enum ∧ ∃ w ∈ B, w ∈ nestedEnums d₄ ∧
      d₄.hierarchy.called .managed w = d₅.hierarchy.called .managed e
  · obtain ⟨henum, w, hw, hnested, hcalled⟩ := hlater
    by_cases hname : d₅.hierarchy.fullName e = d₅.hierarchy.called .managed e
    · have hget := he.get?_native ha (he.mem_rootEnums henum) hstays hname
      exact .inl ⟨⟨e, _⟩, by rw [Index.lookup?, Index.lookupIn, hget, Option.some_or], rfl⟩
    · exact .inr (he.bereft_of_later hl hstays henum hw hnested hcalled hname)
  · refine .inl (hmanaged (he.get?_of_last ha hl hstays fun w hw hnested hcalled henum => hlater ?_))
    exact ⟨he.enums.kind ▸ henum, w, hw, hnested, hcalled⟩

/-- The key of its managed name does not lead to an enum that is bereft of it. -/
theorem misses_of_bereft (hb : d₅.hierarchy.Bereft e) :
    d₅.registry.Misses .managed (d₅.hierarchy.called .managed e) e := by
  have hs := he.sound_named
  obtain ⟨henum, htop, -, i, q, hbefore, howner, hname⟩ := hb
  have henum : d₄.hierarchy.kind e = .enum := he.enums.kind ▸ henum
  rw [he.enums.enums] at hbefore
  have hikind : d₄.hierarchy.kind i = .enum := (hs.orderly.of_mem_enums (hbefore.subset (by simp))).2
  have hiroot := he.mem_rootEnums hikind
  have himem : i ∈ d₄.hierarchy.indexed :=
    Hierarchy.mem_indexed.2 ⟨lt_size_of_mem_rootEnums hs i hiroot, by rw [hikind]; rfl⟩
  have hstays : e ∉ nestedEnums d₄ := by
    intro hnested
    obtain ⟨hroot, hsome⟩ := mem_nestedEnums.1 hnested
    obtain ⟨o, ho⟩ := Option.isSome_iff_exists.1 hsome
    cases htop.symm.trans (he.enums.moved hroot ho).1
  have hcalled : d₄.hierarchy.called .managed i = d₅.hierarchy.called .managed e :=
    Option.some.inj ((he.managedName_rootEnum hiroot).symm.trans hname)
  obtain ⟨A, B, hl⟩ := List.append_of_mem (he.mem_walkAll_named himem)
  have hbefore := before_walkAll hs (he.mem_rootEnums henum) hiroot hbefore
  have hnodup := hs.orderly.nodup_walkAll
  rw [hl] at hbefore hnodup
  have hA := mem_of_before hnodup hbefore
  have hout : e ∉ i :: B := fun h => (List.nodup_append.1 hnodup).2.2 e hA e h rfl
  -- The later enum gets the key, and no other kind has the name.
  have hmiss := he.misses_named hl himem (hcalled ▸ ha.named) (j := e) (fun w hw hindexed hcw => ?_)
    (fun h => hout (h ▸ List.mem_cons_self)) (fun h => hout (List.mem_cons_of_mem i h))
      (hcalled ▸ he.plain_named ha)
  · rw [hcalled] at hmiss
    exact he.misses hmiss hstays
  · rw [hikind]
    by_cases hwe : w = e
    · rw [hwe, henum]
    · exact kind_of_mem_nestedEnums hs
        (he.mem_nestedEnums_of_called ha hindexed hwe (hcw.trans hcalled))

/-- If it is bereft of its key, nothing stands under its managed name. -/
theorem lookup?_of_bereft (hb : d₅.hierarchy.Bereft e) :
    d₅.registry.index.lookup? (d₅.hierarchy.called .managed e) none = none := by
  rw [Index.lookup?, Index.lookupIn, Index.lookupIn]
  cases hnative : d₅.registry.index.native.get? (d₅.hierarchy.called .managed e) with
  | some x =>
    exact absurd (ha.of_get? (u := .native) he.sound_enclosed he.upkept hnative).2 hb.apart
  | none =>
    cases hget : d₅.registry.index.managed.get? (d₅.hierarchy.called .managed e) with
    | some x =>
      exact absurd (ha.of_get? (u := .managed) he.sound_enclosed he.upkept hget).1
        (he.misses_of_bereft ha hb hget)
    | none => rfl

end Alone

end Enclosed

/-- Nothing stands under the empty name. -/
theorem Draft.Upkept.lookup?_empty (hd : d.Upkept) : d.registry.index.lookup? "" none = none := by
  have hnone : ∀ u, (d.registry.index.table u).get? "" = none := by
    intro u
    cases hget : (d.registry.index.table u).get? "" with
    | none => rfl
    | some x =>
      have hcalled := (hd.traced hget).resolve_right fun hdis => hdis.not_colonless List.not_mem_nil
      exact absurd hcalled.symm (hd.filed hget).1
  rw [Index.lookup?, Index.lookupIn, Index.lookupIn]
  change ((d.registry.index.table .native).get? "").or ((d.registry.index.table .managed).get? "") = none
  rw [hnone, hnone, Option.or_none]

/-- A managed name that no other type or namespace has as its full or its managed name, and under which
nothing was put in a clash, leads to its element once enums are nested, unless the name is empty or the
element is an enum that is bereft of its key; then the name leads nowhere. -/
theorem found_of_enclose (hd : p.enclose rs p.blank = .ok () d) (he : e ∈ d.hierarchy.walkAll)
    (hk : (d.hierarchy.kind e).isIndexed = true)
    (honly : ∀ i ∈ d.hierarchy.walkAll, (d.hierarchy.kind i).isIndexed = true → i ≠ e → ∀ u,
      d.hierarchy.called u i ≠ d.hierarchy.called .managed e)
    (hplain : ∀ c, .clash c ∈ d.registry.log →
      c.added.keyed c.name ≠ d.hierarchy.called .managed e) :
    ((d.registry.index.lookup? (d.hierarchy.called .managed e) none).map Entry.id = some e ↔
      d.hierarchy.called .managed e ≠ "" ∧ ¬ d.hierarchy.Bereft e) ∧
    (d.hierarchy.Bereft e →
      d.registry.index.lookup? (d.hierarchy.called .managed e) none = none) := by
  obtain ⟨d₁, d₂, d₃, d₄, hen⟩ := enclosed_of_enclose hd
  have ho := hen.sound_enclosed.orderly
  by_cases hne : d.hierarchy.called .managed e = ""
  · have hnone := hen.upkept.lookup?_empty
    rw [← hne] at hnone
    exact ⟨iff_of_false (by simp [hnone]) fun h => h.1 hne, fun _ => hnone⟩
  have ha : d.Alone e := by
    refine ⟨Hierarchy.mem_indexed.2 ⟨ho.lt_size_of_mem_walkAll he, hk⟩, hne, fun i hi => ?_, ?_⟩
    · obtain ⟨hlt, hki⟩ := Hierarchy.mem_indexed.1 hi
      refine honly i (ho.mem_walkAll_iff.2 fun hdetached => ?_) hki
      rw [ho.attached hlt hdetached] at hki
      cases hki
    · rintro u ⟨c, hc, -, hkey⟩
      exact hplain c hc hkey
  refine ⟨⟨fun hfound => ⟨hne, fun hb => ?_⟩, fun ⟨_, hb⟩ => ?_⟩, hen.lookup?_of_bereft ha⟩
  · rw [hen.lookup?_of_bereft ha hb] at hfound
    cases hfound
  · obtain ⟨x, hx, rfl⟩ := (hen.lookup?_or_bereft ha).resolve_right hb
    rw [hx, Option.map_some]

/-- What a test finds of the draft in which enums are nested, the draft has. -/
theorem exists_enclosed (p : Plan) (rs : List Record) (Q : Draft → Bool)
    (hq : endsIn (p.enclose rs) p.blank Q = true) :
    ∃ d, p.enclose rs p.blank = .ok () d ∧ Q d = true :=
  exists_run _ _ Q hq

/-- Whether no type or namespace that is reached has a name, but for one element. -/
def Draft.sole (d : Draft) (e : ElementId) (name : String) : Bool :=
  decide (∀ i ∈ d.hierarchy.walkAll, (d.hierarchy.kind i).isIndexed = true → i ≠ e →
    d.hierarchy.called .native i ≠ name ∧ d.hierarchy.called .managed i ≠ name)

theorem Draft.ne_of_sole {name : String} (hs : d.sole e name = true) (hi : i ∈ d.hierarchy.walkAll)
    (hk : (d.hierarchy.kind i).isIndexed = true) (hne : i ≠ e) (u : Table) :
    d.hierarchy.called u i ≠ name := by
  obtain ⟨hnative, hmanaged⟩ := of_decide_eq_true hs i hi hk hne
  cases u with
  | native => exact hnative
  | managed => exact hmanaged

/-- An enum that is nested is found under its new managed name. -/
theorem found_of_sample : ∃ d, samplePlan.enclose sampleRecords samplePlan.blank = .ok () d ∧
    d.hierarchy.kind 8 = .enum ∧ d.hierarchy.called .managed 8 = "A.B.Outer.Mode" ∧
      (d.registry.index.lookup? "A.B.Outer.Mode" none).map Entry.id = some 8 := by
  obtain ⟨d, hd, hq⟩ := exists_enclosed samplePlan sampleRecords
    (fun d => d.sole 8 "A.B.Outer.Mode" && decide (8 ∈ d.hierarchy.walkAll ∧
      d.hierarchy.kind 8 = .enum ∧ d.hierarchy.called .managed 8 = "A.B.Outer.Mode" ∧
        d.hierarchy.owner 8 ≠ .root ∧ d.registry.log = [])) (by decide +kernel)
  rw [Bool.and_eq_true] at hq
  obtain ⟨hwalk, henum, hcalled, howner, hlog⟩ := of_decide_eq_true hq.2
  have hfound := (found_of_enclose hd hwalk (by rw [henum]; rfl)
    (fun i hi hk hne u => hcalled ▸ Draft.ne_of_sole hq.1 hi hk hne u)
      (fun c hc => by rw [hlog] at hc; cases hc)).1.2 ⟨by rw [hcalled]; decide, fun hb => howner hb.top⟩
  rw [hcalled] at hfound
  exact ⟨d, hd, henum, hcalled, hfound⟩

/-- Two enums with one managed name at the top, of which the later one is nested, and a class that
refers to the other one by that name. -/
def bereavedRecords : List Record :=
  [.plain (.ns {}) "a" [.plain (.cls {}) "C" [.plain (.implements {}) "State" []]],
    .plain (.enum {}) "state" [], .plain (.enum {}) "a.State" []]

/-- No other element has the name of the first one, but nothing is found under it, and the build
fails. -/
theorem unfound_of_bereaved : (∃ d, samplePlan.enclose bereavedRecords samplePlan.blank = .ok () d ∧
    3 ∈ d.hierarchy.walkAll ∧ d.hierarchy.kind 3 = .enum ∧ d.hierarchy.called .managed 3 = "State" ∧
      (∀ i ∈ d.hierarchy.walkAll, (d.hierarchy.kind i).isIndexed = true → i ≠ 3 → ∀ u,
        d.hierarchy.called u i ≠ "State") ∧
        d.registry.index.lookup? "State" none = none) ∧
    (samplePlan.build bereavedRecords).result = .error (.typeNotFound "State" (some "a.C")) := by
  refine ⟨?_, build_fails _ _ _ (by decide +kernel)⟩
  obtain ⟨d, hd, hq⟩ := exists_enclosed samplePlan bereavedRecords
    (fun d => d.sole 3 "State" && decide (3 ∈ d.hierarchy.walkAll ∧ d.hierarchy.kind 3 = .enum ∧
      d.hierarchy.called .managed 3 = "State" ∧ d.registry.index.lookup? "State" none = none))
    (by decide +kernel)
  rw [Bool.and_eq_true] at hq
  obtain ⟨hwalk, henum, hcalled, hnone⟩ := of_decide_eq_true hq.2
  exact ⟨d, hd, hwalk, henum, hcalled, fun i hi hk hne => Draft.ne_of_sole hq.1 hi hk hne, hnone⟩

end BindingTree

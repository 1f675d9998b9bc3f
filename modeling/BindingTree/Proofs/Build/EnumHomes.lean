import BindingTree.Proofs.Build.ColonlessNames
import BindingTree.Proofs.Build.ManagedLookups

/-! Where an enum of the top level ends. Its qualifier is looked up before any enum is moved, while all
enums are at the top under the names of their records. Among full names only the record of another
enum can be in the way of a namespace, a class or an interface that has the qualifier as its name. Among
managed names nothing can: enums are named after everything else, so the key is taken when an enum
gets the same name. -/

namespace BindingTree

open Build Naming

variable {p : Plan} {rs : List Record} {r : Record} {d' d₁ d₂ d₃ d₄ d₅ d₆ : Draft} {h : Hierarchy}
  {i e t : ElementId} {u : Table} {q n : String}

/-- A name is the full name of an element, native or managed. -/
def Hierarchy.GoesBy (h : Hierarchy) (i : ElementId) (name : String) : Prop :=
  h.fullName i = name ∨ (h.element i).fullManagedName = some name

/-- A name points an enum at the one namespace, class or interface that goes by it: no other type or
namespace that is reached does, and no other enum was called so by its record. -/
structure Hierarchy.PointsAt (h : Hierarchy) (rs : List Record) (e : ElementId) (q : String)
    (t : ElementId) : Prop where
  mem : t ∈ h.walkAll
  kind : h.kind t = .ns ∨ h.kind t = .cls ∨ h.kind t = .iface
  name : h.GoesBy t q
  sole : ∀ i ∈ h.walkAll, (h.kind i).isIndexed = true → h.GoesBy i q → i = t
  others : ∀ x ∈ (rs.filter (·.tag = .enum)).zip h.enums, x.2 ≠ e → x.1.name ≠ q

/-- An element is a member of another one, and its full name goes on from that of its owner. -/
structure Hierarchy.Home (h : Hierarchy) (t e : ElementId) (n : String) : Prop where
  owner : h.owner e = .element t
  mem : e ∈ h.members t
  name : (h.element e).name = n
  fullName : h.fullName e = h.fullName t ++ "." ++ n

/-- The full managed name of an element goes on from that of another one. -/
def Hierarchy.GoesOn (h : Hierarchy) (t e : ElementId) : Prop :=
  ∃ text m, (h.element t).fullManagedName = some text ∧ (h.element e).managedName = some m ∧
    (h.element e).fullManagedName = some (text ++ "." ++ m)

instance (h : Hierarchy) (i : ElementId) (name : String) : Decidable (h.GoesBy i name) :=
  inferInstanceAs (Decidable (_ ∨ _))

instance (h : Hierarchy) (rs : List Record) (e : ElementId) (q : String) (t : ElementId) :
    Decidable (h.PointsAt rs e q t) :=
  decidable_of_iff ((t ∈ h.walkAll ∧ (h.kind t = .ns ∨ h.kind t = .cls ∨ h.kind t = .iface)) ∧
      (h.GoesBy t q ∧ ∀ i ∈ h.walkAll, (h.kind i).isIndexed = true → h.GoesBy i q → i = t) ∧
        ∀ x ∈ (rs.filter (·.tag = .enum)).zip h.enums, x.2 ≠ e → x.1.name ≠ q)
    ⟨fun ⟨⟨hm, hk⟩, ⟨hn, hs⟩, ho⟩ => ⟨hm, hk, hn, hs, ho⟩,
      fun hp => ⟨⟨hp.mem, hp.kind⟩, ⟨hp.name, hp.sole⟩, hp.others⟩⟩

theorem Hierarchy.goesBy_iff (hq : q ≠ "") : h.GoesBy i q ↔ ∃ u, h.called u i = q := by
  have hmanaged : h.called .managed i = q ↔ (h.element i).fullManagedName = some q := by
    change (h.element i).fullManagedName.getD "" = q ↔ _
    cases (h.element i).fullManagedName with
    | none => exact ⟨fun he => absurd he.symm hq, fun he => by cases he⟩
    | some m => rw [Option.getD_some, Option.some.injEq]
  rw [GoesBy, ← hmanaged]
  constructor
  · exact fun hname => hname.elim (⟨.native, ·⟩) (⟨.managed, ·⟩)
  · rintro ⟨_ | _, hname⟩
    · exact .inl hname
    · exact .inr hname

/-! ### Before enums are nested -/

namespace Enclosed

/-- A name leads to the one element other than enums that has it, if no enum has it as its full
name. -/
theorem lookup?_of_sole (he : Enclosed p rs d₁ d₂ d₃ d₄ d₅) (hq : Colonless q)
    (hne : q ≠ "") (ht : t ∈ d₄.hierarchy.indexed) (hk : d₄.hierarchy.kind t ≠ .enum)
    (hname : d₄.hierarchy.called u t = q)
    (hsole : ∀ i ∈ d₄.hierarchy.indexed, d₄.hierarchy.kind i ≠ .enum →
      ∀ u, d₄.hierarchy.called u i = q → i = t)
    (henum : ∀ i ∈ d₄.hierarchy.indexed, d₄.hierarchy.kind i = .enum → d₄.hierarchy.fullName i ≠ q) :
    ∃ x, d₄.registry.index.lookup? q none = some x ∧ x.id = t := by
  have hplain : ∀ v, ¬ d₄.registry.Displaced v q := fun _ hdis => hdis.not_colonless hq
  rw [Index.lookup?, Index.lookupIn, Index.lookupIn]
  cases hget : d₄.registry.index.native.get? q with
  | some x =>
    have hget : (d₄.registry.index.table .native).get? q = some x := hget
    have hmem := mem_indexed_of_points he.sound_named.points hget
    have hcalled : q = d₄.hierarchy.called .native x.id :=
      (he.upkept_named.traced hget).resolve_right (hplain .native)
    exact ⟨x, rfl, hsole x.id hmem (fun hk => henum x.id hmem hk hcalled.symm) .native hcalled.symm⟩
  | none =>
    obtain rfl : u = .managed := by
      cases u with
      | native =>
        obtain ⟨x, hx⟩ := he.taken_named ht
        rw [show d₄.hierarchy.fullName t = q from hname, hget] at hx
        cases hx
      | managed => rfl
    obtain ⟨A, B, hl⟩ := List.append_of_mem (he.mem_walkAll_named ht)
    have hpairs := pairwise_enums he.sound_named he.enumsOnTop
    have hnodup := he.sound_named.orderly.nodup_walkAll
    rw [hl] at hpairs hnodup
    have hreaches := he.reaches_named hl ht (hname ▸ hne) (fun w hw hindexed hcalled => ?_)
      (fun w hw hindexed hcalled hkind => ?_)
    · rw [hname] at hreaches
      have hmanaged : d₄.registry.index.managed.get? q = some _ :=
        hreaches.resolve_left (hplain .managed)
      exact ⟨_, hmanaged, rfl⟩
    · -- What is named before it is no enum, as enums come last.
      have hw' : d₄.hierarchy.kind w ≠ .enum := fun hkind =>
        hk ((List.pairwise_append.1 hpairs).2.2 w hw t List.mem_cons_self hkind ht)
      rw [hsole w hindexed hw' .managed (hcalled.trans hname)]
    · have hw' : w = t := hsole w hindexed (hkind ▸ hk) .managed (hcalled.trans hname)
      exact (List.nodup_cons.1 hnodup.of_append_right).1 (hw' ▸ hw)

end Enclosed

namespace Stages

variable (hst : Stages p rs d₁ d₂ d₃ d₄ d₅ d₆ d')
include hst

section Leads
variable (htop : d₄.hierarchy.TopEnum r e)
include htop

/-- What the qualifier of an enum points it at is what the qualifier leads to. -/
theorem lookup?_of_pointsAt (hp : d'.hierarchy.PointsAt rs e q t) (hq : q ≠ "")
    (hc : Colonless q) (hne : r.name ≠ q) : ∃ x, d₄.registry.index.lookup? q none = some x ∧ x.id = t ∧
      ownsEnums (d₄.hierarchy.kind t) = true ∧ d₄.hierarchy.kind t ≠ .enum := by
  obtain ⟨hindexed, hinvoker, howns, henum⟩ : (d'.hierarchy.kind t).isIndexed = true ∧
      d'.hierarchy.kind t ≠ .invoker ∧ ownsEnums (d'.hierarchy.kind t) = true ∧
        d'.hierarchy.kind t ≠ .enum := by
    rcases hp.kind with hk | hk | hk <;> rw [hk] <;> decide
  obtain ⟨hmem, hkind⟩ := hst.named_of_mem_walkAll hp.mem hindexed hinvoker
  rw [← hkind] at howns henum
  obtain ⟨u, hu⟩ := (Hierarchy.goesBy_iff hq).1 hp.name
  rw [(hst.kept_of_named hmem henum).2] at hu
  have hsole : ∀ i ∈ d₄.hierarchy.indexed, d₄.hierarchy.kind i ≠ .enum →
      ∀ u, d₄.hierarchy.called u i = q → i = t := by
    intro i hi hk u hcalled
    obtain ⟨hi', hkept⟩ := hst.kept_of_named hi hk
    refine hp.sole i (hst.mem_walkAll_of_indexed hi') (Hierarchy.mem_indexed.1 hi').2 ?_
    exact (Hierarchy.goesBy_iff hq).2 ⟨u, (hkept u).trans hcalled⟩
  -- Before they are nested, enums are called as their records call them.
  have hothers : ∀ i ∈ d₄.hierarchy.indexed, d₄.hierarchy.kind i = .enum →
      d₄.hierarchy.fullName i ≠ q := by
    intro i _ hk hname
    have hroot := hst.enclosed.mem_rootEnums hk
    obtain ⟨r', hzip, htop'⟩ := hst.enumsFrom_named.exists_zip (List.mem_filter.1 hroot).1
    by_cases hie : i = e
    · rw [hie, htop.fullName] at hname
      exact hne hname
    · rw [← hst.enums_finished] at hzip
      exact hp.others (r', i) hzip hie (htop'.fullName.symm.trans hname)
  obtain ⟨x, hx, hid⟩ := hst.enclosed.lookup?_of_sole hc hq hmem henum hu hsole hothers
  exact ⟨x, hx, hid, howns, henum⟩

variable (hk : d'.hierarchy.kind e = .enum)
include hk

/-- An enum whose qualifier points it at an element ends as a member of this element. -/
theorem home_of_pointsAt (hatt : d'.hierarchy.owner e ≠ .detached) (hq : q ≠ "") (hn : '.' ∉ n.toList)
    (hname : r.name = q ++ "." ++ n) (hc : Colonless q) (hp : d'.hierarchy.PointsAt rs e q t) :
    d'.hierarchy.Home t e n := by
  have hne : r.name ≠ q := hname ▸ dotted_ne_qualifier q n
  have hsplit : splitLast r.name = (some q, n) := hname ▸ splitLast_append hq hn
  obtain ⟨howner, hnative⟩ := hst.of_enclosed hatt (by simp [hk])
  have hkind : d₄.hierarchy.kind e = .enum := by
    rw [← hst.enums.kind, ← hk]
    exact (congrArg Prod.fst hnative).symm
  obtain ⟨x, hx, hid, howns, henum⟩ := hst.lookup?_of_pointsAt htop hp hq hc hne
  have hnest : nest? ownsEnums d₄ e = some t := by
    refine nest?_eq_some.2 ⟨q, x, ?_, hx, hid, fun heq => henum (heq ▸ hkind), howns⟩
    rw [htop.fullName, hsplit]
  have hmoved := (hst.enums.moved (hst.enclosed.mem_rootEnums hkind) hnest).1
  rw [← howner] at hmoved
  obtain ⟨hcomposed, hlast, -⟩ := hst.composed_moved htop hmoved hk
  rw [hsplit] at hlast
  have hfull := (Hierarchy.composed_iff_of_owner hmoved).1 hcomposed
  rw [hlast] at hfull
  exact ⟨hmoved, hst.sound_finished.orderly.mem_members.2 hmoved, hlast, hfull⟩

omit htop hk in
/-- If the translator has no empty answers, the full managed name of a member goes on from its
owner's. -/
theorem goesOn_of_owner (hn : p.translator.NeverEmpty) (ho : d'.hierarchy.owner e = .element t) :
    d'.hierarchy.GoesOn t e := by
  have hmt := hst.managed_finished (hst.sound_finished.orderly.owner_ne_detached_of_owns ho)
  obtain ⟨m, hm, hfull⟩ := hst.managed_finished (j := e) (by simp [ho])
  have hne := hmt.fullManagedText_ne_empty (hst.managedName_ne_empty hn)
  rw [ho, Hierarchy.composeFullManagedName_element hne] at hfull
  obtain ⟨n, -, htext⟩ := hmt
  rw [Element.fullManagedText, htext, Option.getD_some] at hfull
  exact ⟨_, m, htext, hm, hfull⟩

/-- An enum whose record name has no qualifier stays at the top under this name. -/
theorem stays_of_dotless (hatt : d'.hierarchy.owner e ≠ .detached) (hn : '.' ∉ r.name.toList) :
    d'.hierarchy.owner e = .root ∧ (d'.hierarchy.element e).name = r.name ∧
      d'.hierarchy.fullName e = r.name := by
  have hsplit := splitLast_of_dotless hn
  obtain ⟨howner, hnative⟩ := hst.of_enclosed hatt (by simp [hk])
  have hnone : nest? ownsEnums d₄ e = none := by
    rw [nest?, qualifierTarget?, htop.fullName, hsplit]
    rfl
  obtain ⟨hstay, hfull⟩ := hst.enums.stayed fun _ => hnone
  refine ⟨?_, ?_, ?_⟩
  · rw [howner, hstay, htop.owner]
  · rw [Hierarchy.name_of_native hnative, hst.enums.name, htop.name, hsplit]
  · exact (Hierarchy.fullName_of_native hnative).trans (hfull.trans htop.fullName)

end Leads

end Stages

/-- At the end of a build the enums from the top level are those of its enum records, in the same order.
One whose record is called by a qualifier and a name without dots is a member of what the qualifier
points it at, in either spelling, and its full name goes on from that of its owner; so does its full
managed name, if the translator has no empty answers. One whose record's name has no dots is at the top
under this name. -/
theorem enumHomes_of_build (hc : Colonfree p rs) (hb : (p.build rs).result = .ok h) :
    List.Forall₂ (fun r e =>
      (∀ q n t, r.name = q ++ "." ++ n → q ≠ "" → '.' ∉ n.toList → h.PointsAt rs e q t →
        h.Home t e n ∧ (p.translator.NeverEmpty → h.GoesOn t e)) ∧
      ('.' ∉ r.name.toList → e ∈ h.rootEnums ∧ (h.element e).name = r.name ∧
        h.fullName e = r.name)) (rs.filter (·.tag = .enum)) h.enums := by
  obtain ⟨d, hd, rfl⟩ := build_ok hb
  obtain ⟨d₁, d₂, d₃, d₄, d₅, d₆, hst⟩ := stages_of_passes hd
  have ho := hst.sound_finished.orderly
  refine List.forall₂_iff_zip.2 ⟨?_, fun {r e} hr => ?_⟩
  · rw [hst.enums_finished]
    exact hst.enumsFrom_named.length_eq
  have htop : d₄.hierarchy.TopEnum r e := by
    rw [hst.enums_finished] at hr
    exact List.forall₂_zip hst.enumsFrom_named hr
  obtain ⟨hlt, hk⟩ := ho.of_mem_enums (List.of_mem_zip hr).2
  have hatt : d.hierarchy.owner e ≠ .detached := fun hdetached => by
    cases hk.symm.trans (ho.attached hlt hdetached)
  refine ⟨fun q n t hname hq hn hp => ?_, fun hn => ?_⟩
  · have hcolonless : Colonless r.name := htop.fullName ▸ (hst.colonless_named hc e).2
    rw [hname] at hcolonless
    have hhome := hst.home_of_pointsAt htop hk hatt hq hn hname (colonless_compose.1 hcolonless).1 hp
    exact ⟨hhome, fun hnever => hst.goesOn_of_owner hnever hhome.owner⟩
  · obtain ⟨hroot, hname, hfull⟩ := hst.stays_of_dotless htop hk hatt hn
    exact ⟨ho.mem_rootEnums.2 ⟨hk, hroot⟩, hname, hfull⟩

/-- A class, enums whose records name it by its native and by its managed name, and one without a
qualifier. -/
def spelledRecords : List Record :=
  [.plain (.ns {}) "a.b" [.plain (.cls {}) "Outer" []], .plain (.enum {}) "a.b.Outer.Mode" [],
    .plain (.enum {}) "A.B.Outer.State" [], .plain (.enum {}) "Lone" []]

theorem enumHomes_of_spelled : samplePlan.translator.NeverEmpty ∧
    ∃ h, (samplePlan.build spelledRecords).result = .ok h ∧ h.Home 1 2 "Mode" ∧ h.GoesOn 1 2 ∧
      h.Home 1 3 "State" ∧ h.GoesOn 1 3 ∧ 4 ∈ h.rootEnums ∧ h.fullName 4 = "Lone" := by
  have hn : samplePlan.translator.NeverEmpty := isBuiltIn_samplePlan.neverEmpty
  have hc : Colonfree samplePlan spelledRecords :=
    ⟨colonfree_sample.settings, by unfold Colonless; decide +kernel⟩
  obtain ⟨h, hb, hq⟩ := exists_built samplePlan spelledRecords
    (fun h => decide (h.enums = [2, 3, 4]) &&
      (decide (h.PointsAt spelledRecords 2 "a.b.Outer" 1) &&
        decide (h.PointsAt spelledRecords 3 "A.B.Outer" 1))) (by decide +kernel)
  simp only [Bool.and_eq_true, decide_eq_true_eq] at hq
  obtain ⟨henums, hnative, hmanaged⟩ := hq
  have hhomes := enumHomes_of_build hc hb
  rw [henums] at hhomes
  obtain ⟨hmode, hhomes⟩ := List.forall₂_cons.1 hhomes
  obtain ⟨hstate, hhomes⟩ := List.forall₂_cons.1 hhomes
  obtain ⟨⟨-, hlone⟩, -⟩ := List.forall₂_cons.1 hhomes
  obtain ⟨hroot, -, hname⟩ := hlone (by decide +kernel)
  obtain ⟨hhome, hgoes⟩ :=
    hmode.1 "a.b.Outer" "Mode" 1 (by decide +kernel) (by decide) (by decide +kernel) hnative
  obtain ⟨hhome', hgoes'⟩ :=
    hstate.1 "A.B.Outer" "State" 1 (by decide +kernel) (by decide) (by decide +kernel) hmanaged
  exact ⟨hn, h, hb, hhome, hgoes hn, hhome', hgoes' hn, hroot, hname⟩

end BindingTree

import BindingTree.Proofs.Build.ColonlessNames
import BindingTree.Proofs.Build.EnumRounds
import BindingTree.Proofs.Build.Ready

/-! The base types of invokers. An invoker names the root type and its interface, and both are
looked for among interfaces first. What stands in the index for either of them before enums are
nested stands there to the end: an enum takes none but its own entries along when it is renamed, and
an entry gives way to nothing but one of its kind. Under the strict policy there is one entry to a
name, which no kind that is asked for can divert, so the root type is found whatever it was asked
for as, and the interface is, too, if no other has its full name. -/

namespace BindingTree

open Build Naming
open Relation (ReflTransGen)

variable {p : Plan} {rs : List Record} {d d' d₁ d₂ d₃ d₄ d₅ d₆ : Draft} {h : Hierarchy}
  {j f : ElementId} {k : Kind} {name : String} {is : List ElementId}

/-! ### What the index holds before enums are nested -/

/-- Making sure of the root type leaves a class of its name in the index. -/
theorem holds_of_ensureRootType (he : d'.AllEntered) (hn : NoInvoker d'.hierarchy) (hs : d'.Sound)
    (hl : ∀ i, d'.registry.index.Lacks .managed i) (hc : Colonless name)
    (hd : ensureRootType name d = .ok () d') : d'.registry.index.Holds .cls name := by
  obtain ⟨_, _, hindex, hd⟩ := bind_ok.1 hd
  obtain ⟨rfl, rfl⟩ := index_ok.1 hindex
  split at hd
  next hfound =>
    obtain ⟨-, rfl⟩ := pure_ok.1 hd
    rw [Option.any_eq_true] at hfound
    obtain ⟨e, he, hclass⟩ := hfound
    have hcls : e.kind = .cls := by
      have hnot := (hs.lookup he).2.1 ▸ hn e.id
      revert hclass hnot
      cases e.kind <;> decide
    have hfind : d.registry.index.find? name .cls = some e.id := by
      rw [Index.find?, he, Option.map_some]
    obtain ⟨u, key, x, hkey, hget, hid⟩ := Index.key_of_find? hfind
    cases u with
    | native =>
      have hkind : x.kind = .cls := by
        rw [← (hs.points hget).2.1, hid, (hs.lookup he).2.1, hcls]
      rcases hkey with rfl | rfl
      · exact ⟨x, hkind, .inl hget⟩
      · exact ⟨x, hkind, .inr hget⟩
    | managed => exact absurd rfl (hl x.id hget)
  next =>
    obtain ⟨ns, d₁, -, hmake⟩ := bind_ok.1 hd
    obtain ⟨r, hr, rfl⟩ := makeType_ok hmake
    have hf := Hierarchy.Fresh.putBelow (h := d₁.hierarchy) (p := ns)
      (e := supportType .cls name false)
    have hmem : d₁.hierarchy.size ∈
        (d₁.hierarchy.putBelow ns (supportType .cls name false)).indexed :=
      Hierarchy.mem_indexed.2 ⟨hf.size_lt, by rw [hf.kind_new]; rfl⟩
    have hentered := he hmem
    dsimp only at hentered
    rw [hf.kind_new, Hierarchy.fullName, hf.element_new] at hentered
    exact hentered.holds hc

/-! ### What is held stays -/

/-- Entries of an element agree on its kind, so what is entered diverts nothing. -/
theorem holds_of_upkeep {may : Table → ElementId → String → Prop} (hc : Colonless name)
    (hst : ReflTransGen (Upkeep may is) d d') (hh : d.registry.index.Holds k name) :
    d'.registry.index.Holds k name := by
  induction hst with
  | refl => exact hh
  | tail _ hst ih =>
    cases hst with
    | enter he =>
      refine ih.insert (fun key x hx hid => ?_) hc he.insert
      rw [← (he.sound.points (t := .native) hx).2.1, hid]
    | edit hs hsize hkind hname hindex hlog hquiet => rwa [hindex]

theorem Enclosed.holds (he : Enclosed p rs d₁ d₂ d₃ d₄ d₅) (hk : k ≠ .enum) (hc : Colonless name)
    (hh : d₄.registry.index.Holds k name) : d₅.registry.index.Holds k name := by
  refine (nestEnums_rounds (I := fun _ d => d.registry.index.Holds k name) he.sound_named
    he.upkept_named (fun _ _ => hh) (fun i is d d' hm hh hrun _ => ?_)
    he.nesting).2
  have hsteps : ReflTransGen (Upkeep (fun _ _ _ => True) is) _ d' := hm.upkeep hrun fun _ => trivial
  refine holds_of_upkeep hc hsteps (hh.withoutNames fun key x hx hid => ?_)
  rw [← (hm.sound.points (t := .native) hx).2.1, hid, hm.enum]
  exact hk.symm

/-! ### One entry to a name -/

/-- Under the strict policy, and without colons in names, what the index holds under a name is found
by it whatever kind is asked for, and is called by it. -/
theorem Draft.Filed.find?_of_holds (hd : d.Filed) (hs : d.Sound) (hcolon : d.hierarchy.Colonless)
    (hpolicy : d.registry.index.policy = .strict) (hh : d.registry.index.Holds k name)
    (hint : Kind) :
    ∃ b, d.registry.index.find? name hint = some b ∧ d.hierarchy.kind b = k ∧
      d.hierarchy.fullName b = name := by
  have hplain : ∀ {key : String} {e : Entry}, d.registry.index.native.get? key = some e →
      d.hierarchy.fullName e.id = key := by
    intro key e he
    rcases (hd (u := .native) he).2 with hkey | ⟨hrekey, -⟩
    · exact hkey.symm
    · cases hpolicy.symm.trans hrekey
  have hkeyed : ∀ (k : Kind) (name : String),
      d.registry.index.native.get? (k.keyed name) = none := by
    intro k name
    cases he : d.registry.index.native.get? (k.keyed name) with
    | none => rfl
    | some e => exact absurd (hplain he ▸ (hcolon e.id).2) (Index.not_colonless_keyed k name)
  obtain ⟨e, hkind, he | he⟩ := hh
  · refine ⟨e.id, ?_, (hs.points (t := .native) he).2.1.trans hkind, hplain he⟩
    simp [Index.find?, Index.lookup?, Index.lookupIn, he, hkeyed]
  · cases (hkeyed k name).symm.trans he

namespace Stages

variable (hst : Stages p rs d₁ d₂ d₃ d₄ d₅ d₆ d')
include hst

/-- Once supporting types are there, types and namespaces are entered and nothing is an invoker. -/
theorem allEntered_supported : d₂.AllEntered ∧ NoInvoker d₂.hierarchy := by
  refine ⟨hst.enclosed.allEntered_supported, ?_⟩
  exact (hst.sound_ingested.induction (I := fun d => NoInvoker d.hierarchy) Support.sound
    (fun hstep _ => noInvoker_of_support hstep) hst.support
      (gathered_of_ingest hst.ingest).noInvoker).2

/-- What the index holds for a name when supporting types are there it holds to the end, save for
enums. -/
theorem holds_called (hk : k ≠ .enum) (hc : Colonless name)
    (hh : d₂.registry.index.Holds k name) : d₆.registry.index.Holds k name := by
  have he := hst.enclosed
  have hnamed := holds_of_upkeep hc (he.upkeep_named.head he.upkeep_nested) hh
  exact holds_of_upkeep hc hst.upkeep_called (he.holds hk hc hnamed)

theorem holds_rootType (hc : p.settings.Colonless) (hroot : p.settings.makeRootType = true) :
    d₆.registry.index.Holds .cls p.settings.rootType := by
  obtain ⟨hentered, hnone⟩ := hst.allEntered_supported
  have hlacks : ∀ i, d₂.registry.index.Lacks .managed i :=
    hst.types_registry ▸ hst.enclosed.lacks_nested
  refine hst.holds_called (by decide) hc.rootType ?_
  obtain ⟨ns, d, -, hrest⟩ := bind_ok.1 hst.supporting
  obtain ⟨_, _, hread, hbase⟩ := bind_ok.1 hrest
  obtain ⟨rfl, rfl⟩ := hierarchy_ok.1 hread
  have hensure : ∃ d, ensureRootType p.settings.rootType d = .ok () d₂ := by
    rw [hroot] at hbase
    split at hbase
    · exact ⟨_, hbase⟩
    · obtain ⟨_, d, -, hensure⟩ := bind_ok.1 hbase
      exact ⟨d, hensure⟩
  obtain ⟨d, hensure⟩ := hensure
  exact holds_of_ensureRootType hentered hnone hst.sound_supported hlacks hc.rootType hensure

/-- Interfaces have the names at the end under which they were entered first. -/
theorem holds_interface (hc : Colonfree p rs) (hi : f < d₅.hierarchy.size)
    (hk : d₅.hierarchy.kind f = .iface) :
    d₆.registry.index.Holds .iface (d₅.hierarchy.fullName f) := by
  have hnamed := hst.namedOver.toSameNative
  have hk₄ : d₄.hierarchy.kind f = .iface := by rw [← hst.enums.kind, hk]
  have hk₂ : d₂.hierarchy.kind f = .iface := by rw [← hst.types.kind, ← hnamed.kind, hk₄]
  have hname : d₅.hierarchy.fullName f = d₂.hierarchy.fullName f := by
    rw [(hst.enums.stayed_of_kind hst.sound_named (by simp [hk₄])).2, hnamed.fullName,
      hst.types.fullName]
  have hlt : f < d₂.hierarchy.size := by
    rw [← hst.types.size, ← hnamed.size, ← hst.enums.size]
    exact hi
  have hentered := hst.allEntered_supported.1
    (Hierarchy.mem_indexed.2 ⟨hlt, by rw [hk₂]; rfl⟩)
  have hcolon : Colonless (d₂.hierarchy.fullName f) := (hst.colonless_supported hc f).2
  rw [hk₂] at hentered
  rw [hname]
  exact hst.holds_called (by decide) hcolon (hentered.holds hcolon)

/-- What is held when invokers are made is found under the strict policy. -/
theorem find?_of_strict (hpolicy : p.settings.policy = .strict) (hc : Colonfree p rs)
    (hh : d₆.registry.index.Holds k name) (hint : Kind) :
    ∃ b, d₆.registry.index.find? name hint = some b ∧ d₆.hierarchy.kind b = k ∧
      d₆.hierarchy.fullName b = name :=
  hst.upkept_called.filed.find?_of_holds hst.sound_called (hst.colonless_called hc)
    (hst.policy_called.trans hpolicy) hh hint

end Stages

/-- Under the strict policy, with a root type made sure of and no colons in names, every invoker at
the end of a build extends exactly the root type, which is a class of that name, and the interface
that it calls, if no two interfaces have one full name. -/
theorem invokerBases_of_build (hpolicy : p.settings.policy = .strict)
    (hroot : p.settings.makeRootType = true) (hc : Colonfree p rs)
    (hb : (p.build rs).result = .ok h)
    (hunique : ∀ i i', h.kind i = .iface → h.kind i' = .iface →
      h.fullName i = h.fullName i' → i = i')
    (hj : h.kind j = .invoker) :
    ∃ c i facts, (h.element j).facts? = some facts ∧ facts.bases = some [c, i] ∧
      h.kind c = .cls ∧ h.fullName c = p.settings.rootType ∧
        h.kind i = .iface ∧ facts.invoked = some i := by
  obtain ⟨d, hd, rfl⟩ := build_ok hb
  obtain ⟨d₁, d₂, d₃, d₄, d₅, d₆, hst⟩ := stages_of_passes hd
  have hkind : ∀ i, d.hierarchy.kind i = d₆.hierarchy.kind i := fun i => by rw [hst.finish.kind]
  have hfull : ∀ i, d.hierarchy.fullName i = d₆.hierarchy.fullName i := fun i =>
    Hierarchy.fullName_of_native (hst.finish.native i)
  obtain ⟨f, hf, hfk, hp₆⟩ := hst.payload_of_invoker ((hkind j).symm.trans hj)
  obtain ⟨c, hcfind, hck, hcname⟩ :=
    hst.find?_of_strict hpolicy hc (hst.holds_rootType hc.settings hroot) .iface
  obtain ⟨g, hgfind, hgk, hgname⟩ :=
    hst.find?_of_strict hpolicy hc (hst.holds_interface hc hf hfk) .iface
  -- The interface that is found is the one that the invoker calls.
  obtain rfl : g = f := by
    refine hunique g f ((hkind g).trans hgk) ?_ ?_
    · rw [hkind, hst.invokers.kind hf, hfk]
    · rw [hfull, hgname, hst.fullName_finished hf]
  obtain ⟨bases, hp, hbases⟩ := (hst.resolved.2 j).bases_of_free hp₆ rfl rfl
  have hne : ∀ {b : ElementId} {k : Kind}, d₆.hierarchy.kind b = k → k ≠ .invoker → b ≠ j := by
    rintro b k hb hk rfl
    exact hk (hb.symm.trans ((hkind b).symm.trans hj))
  have hexact : bases = [c, g] := by
    refine hbases.eq_of_found (.cons hcfind (.cons hgfind .nil)) ?_ ?_ (by simp)
    · have hcg : c ≠ g := by
        rintro rfl
        cases hck.symm.trans hgk
      simpa using hcg
    · simpa using ⟨(hne hck (by decide)).symm, (hne hgk (by decide)).symm⟩
  subst hexact
  refine ⟨c, g, _, by rw [Element.facts?, ← Hierarchy.payload, hp], rfl, (hkind c).trans hck,
    (hfull c).trans hcname, (hkind g).trans hgk, rfl⟩

/-- Two interfaces, one of which nests by name. -/
def invokedRecords : List Record :=
  [.plain (.ns {}) "a"
    [.plain (.cls {}) "Outer" [], .plain (.iface {}) "Outer.Face" [], .plain (.iface {}) "Face" []]]

theorem invokerBases_of_invoked : ∃ h,
    ((samplePlan.under .strict).build invokedRecords).result = .ok h ∧ h.kind 8 = .invoker ∧
      ∃ c i facts, (h.element 8).facts? = some facts ∧ facts.bases = some [c, i] ∧
        h.kind c = .cls ∧ h.fullName c = "java.lang.Object" ∧
          h.kind i = .iface ∧ facts.invoked = some i := by
  have hc : Colonfree (samplePlan.under .strict) invokedRecords := by
    refine ⟨⟨?_, ?_, ?_⟩, ?_⟩
    all_goals
      unfold Colonless
      decide +kernel
  obtain ⟨h, hb, hq⟩ := exists_built (samplePlan.under .strict) invokedRecords
    (fun h => decide (h.kind 8 = .invoker) &&
      decide (((h.ids.filter fun i => h.kind i = .iface).map h.fullName).Nodup)) (by decide +kernel)
  simp only [Bool.and_eq_true, decide_eq_true_eq] at hq
  obtain ⟨hj, hnodup⟩ := hq
  have hmem : ∀ {i : ElementId}, h.kind i = .iface →
      i ∈ h.ids.filter fun i => decide (h.kind i = .iface) := fun hi =>
    List.mem_filter.2
      ⟨List.mem_range.2 (Hierarchy.lt_size_of_kind_ne (by simp [hi])), by simpa using hi⟩
  exact ⟨h, hb, hj, invokerBases_of_build rfl rfl hc hb
    (fun i i' hi hi' he => List.inj_on_of_nodup_map hnodup (hmem hi) (hmem hi') he) hj⟩

end BindingTree

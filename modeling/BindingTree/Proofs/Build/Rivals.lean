import BindingTree.Proofs.Build.EnumNames
import BindingTree.Proofs.Build.Renderings

/-! What noticed clashes are about. A clash is noticed when an element is entered under a name under
which there is an entry of another, and an entry stands under the name of its element, or under its
kind and that name. So at the time there are two elements of the two kinds, and both have the name,
up to the kind in front. No pass but that over enums takes a name away, and what it takes away is
the name that an enum had at the top. -/

namespace BindingTree

open Build
open Naming (Translator)
open Relation (ReflTransGen)

/-- An element has a name, or had it once. -/
def Hierarchy.Bears (once : Table → ElementId → String → Prop) (h : Hierarchy) (u : Table)
    (i : ElementId) (name : String) : Prop :=
  name ≠ "" ∧ (h.called u i = name ∨ once u i name)

/-- Two elements over whose name a clash may be noticed: the one that was added bears the name, and so
does the one that was there, or it bears a name before which its kind makes the name. -/
structure Hierarchy.Rivals (once : Table → ElementId → String → Prop) (h : Hierarchy) (c : Clash)
    (x y : ElementId) : Prop where
  ne : x ≠ y
  existing : x ∈ h.indexed ∧ h.kind x = c.existing
  added : y ∈ h.indexed ∧ h.kind y = c.added
  named : h.Bears once c.table y c.name
  taken : h.Bears once c.table x c.name ∨
    ∃ n, c.name = c.existing.keyed n ∧ h.Bears once c.table x n

/-- Every noticed clash is over a name that two elements bear. -/
def Draft.Accounted (once : Table → ElementId → String → Prop) (d : Draft) : Prop :=
  ∀ c, .clash c ∈ d.registry.log → ∃ x y, d.hierarchy.Rivals once c x y

/-- A name that an enum had at the top before it was nested: the one that its record gives, and the
managed name that it still has, without its owner's. -/
inductive Hierarchy.Outgrew (rs : List Record) (h : Hierarchy) : Table → ElementId → String → Prop
  | native {r : Record} {i q : ElementId} (hr : (r, i) ∈ (rs.filter (·.tag = .enum)).zip h.enums)
      (ho : h.owner i = .element q) : Outgrew rs h .native i r.name
  | managed {i q : ElementId} {m : String} (hi : i ∈ h.enums) (ho : h.owner i = .element q)
      (hm : (h.element i).managedName = some m) : Outgrew rs h .managed i m

variable {p : Plan} {rs : List Record} {t : Translator} {d d' d₁ d₂ d₃ d₄ d₅ d₆ : Draft}
  {h h' : Hierarchy} {i x y : ElementId} {u : Table} {name : String} {c : Clash}
  {is : List ElementId} {may once once' : Table → ElementId → String → Prop}

/-! ### Rivals from step to step -/

theorem Hierarchy.Bears.mono (hb : h.Bears once u i name) (ho : ∀ u i n, once u i n → once' u i n) :
    h.Bears once' u i name := hb.imp_right (Or.imp_right (ho u i name))

theorem Hierarchy.Rivals.mono (hr : h.Rivals once c x y) (ho : ∀ u i n, once u i n → once' u i n) :
    h.Rivals once' c x y where
  ne := hr.ne
  existing := hr.existing
  added := hr.added
  named := hr.named.mono ho
  taken := hr.taken.imp (·.mono ho) fun ⟨n, hn, hb⟩ => ⟨n, hn, hb.mono ho⟩

/-- Elements that keep their kinds and their names stay rivals. -/
theorem Hierarchy.Rivals.keep (hr : h.Rivals once c x y)
    (hmem : ∀ i ∈ h.indexed, i ∈ h'.indexed ∧ h'.kind i = h.kind i)
    (hbears : ∀ i ∈ h.indexed, ∀ u n, h.Bears once u i n → h'.Bears once u i n) :
    h'.Rivals once c x y where
  ne := hr.ne
  existing := ⟨(hmem x hr.existing.1).1, (hmem x hr.existing.1).2.trans hr.existing.2⟩
  added := ⟨(hmem y hr.added.1).1, (hmem y hr.added.1).2.trans hr.added.2⟩
  named := hbears y hr.added.1 _ _ hr.named
  taken := hr.taken.imp (hbears x hr.existing.1 _ _) fun ⟨n, hn, hb⟩ =>
    ⟨n, hn, hbears x hr.existing.1 _ _ hb⟩

namespace Build

/-- Where a clash is noticed, what is entered and what is there are rivals. -/
theorem rivals_of_enters (he : Enters is u i d d') (hd : d.Upkept) {existing : Entry}
    (hget : (d.registry.index.table u).get? (d.hierarchy.called u i) = some existing)
    (hid : existing.id ≠ i) : d.hierarchy.Rivals once
      ⟨d.hierarchy.called u i, u, existing.kind, d.hierarchy.kind i⟩ existing.id i := by
  obtain ⟨hne, hkeeps⟩ := hd.filed hget
  refine ⟨hid, ⟨mem_indexed_of_points he.sound.points hget, (he.sound.points hget).2.1⟩, ⟨he.mem, rfl⟩,
    ⟨(Registry.insert_cases he.insert).1, .inl rfl⟩, ?_⟩
  rcases hkeeps with hkey | ⟨-, hkey⟩
  · exact .inl ⟨(Registry.insert_cases he.insert).1, .inl hkey.symm⟩
  · exact .inr ⟨_, hkey, hne, .inl rfl⟩

section Steps
variable (hmay : ∀ u i n, may u i n → once u i n)
include hmay

theorem bears_of_upkeep (hst : Upkeep may is d d') (hi : i ∈ d.hierarchy.indexed)
    (hb : d.hierarchy.Bears once u i name) : d'.hierarchy.Bears once u i name := by
  obtain ⟨hne, rfl | honce⟩ := hb
  · refine ⟨hne, ?_⟩
    cases hst with
    | enter he => exact .inl (by rw [he.hierarchy])
    | edit hs hsize hkind hname =>
      refine (hname i hi u).imp (fun hkept => ?_) fun h => hmay _ _ _ (h.resolve_left fun hn =>
        hn (Hierarchy.named_of_called hne)).1
      exact Hierarchy.called_congr hkept
  · exact ⟨hne, .inr honce⟩

theorem accounted_of_upkeep (hst : Upkeep may is d d') (hd : d.Upkept) (ha : d.Accounted once) :
    d'.Accounted once := by
  have hkept : ∀ c, .clash c ∈ d.registry.log → ∃ x y, d'.hierarchy.Rivals once c x y := by
    intro c hc
    obtain ⟨x, y, hr⟩ := ha c hc
    exact ⟨x, y, hr.keep (fun i hi => ⟨hst.mem_indexed hi, hst.kind (Hierarchy.mem_indexed.1 hi).1⟩)
      fun i hi _ _ => bears_of_upkeep hmay hst hi⟩
  intro c hc
  cases hst with
  | @enter u i he =>
    rcases Registry.log_of_insert he.insert with hlog | ⟨existing, hget, -, hid, hlog⟩
    · exact hkept c (hlog ▸ hc)
    · rw [hlog, List.mem_append] at hc
      rcases hc with hc | hc
      · exact hkept c hc
      · obtain rfl := Notice.clash.inj (List.mem_singleton.1 hc)
        rw [he.hierarchy]
        exact ⟨existing.id, i, rivals_of_enters he hd hget hid⟩
  | edit hs hsize hkind hname hindex hlog hquiet => exact hkept c (hquiet c hc)

theorem accounted_of_steps (hst : ReflTransGen (Upkeep may is) d d') (hd : d.Upkept)
    (ha : d.Accounted once) : d'.Accounted once := by
  induction hst with
  | refl => exact ha
  | tail hsteps hst ih => exact accounted_of_upkeep hmay hst (hd.steps hsteps) ih

end Steps

end Build

/-! ### From pass to pass -/

namespace Enclosed

variable (he : Enclosed p rs d₁ d₂ d₃ d₄ d₅)
include he

theorem accounted_named : d₄.Accounted never := by
  have hblank : p.blank.Accounted never := fun c hc => by cases hc
  have hnever : ∀ u i n, never u i n → never u i n := fun _ _ _ => id
  have hingested := accounted_of_steps hnever he.upkeep_ingested .blank hblank
  have hupkept := Draft.Upkept.blank.steps he.upkeep_ingested
  have hsupported := accounted_of_steps hnever he.upkeep_supported hupkept hingested
  have hnested := accounted_of_upkeep hnever he.upkeep_nested (hupkept.steps he.upkeep_supported)
    hsupported
  exact accounted_of_steps hnever he.upkeep_named he.upkept_nested hnested

/-- The names that the pass over enums takes away. -/
def formerNames (d : Draft) : Table → ElementId → String → Prop :=
  fun u i n => i ∈ nestedEnums d ∧ d.hierarchy.called u i = n

theorem accounted : d₅.Accounted (formerNames d₄) := by
  refine (nestEnums_rounds (I := fun _ d => d.Accounted (formerNames d₄)) he.sound_named
    he.upkept_named (fun h hsame c hc => ?_) (fun i is e e' hm ha hrun _ => ?_)
    he.nesting).2
  · obtain ⟨x, y, hr⟩ := he.accounted_named c hc
    have hcalled : ∀ u i, h.called u i = d₄.hierarchy.called u i := fun u i => by
      rw [Hierarchy.called, hsame.element, Hierarchy.called]
    refine ⟨x, y, (hr.mono fun _ _ _ h => h.elim).keep (fun i hi => ?_) fun i _ u n hb => ?_⟩
    · exact ⟨by rwa [Hierarchy.mem_indexed, hsame.size, hsame.kind, ← Hierarchy.mem_indexed],
        by rw [hsame.kind]⟩
    · exact hb.imp_right (Or.imp_left (hcalled u i).trans)
  · have hwithout : Draft.Accounted (formerNames d₄)
        { e with registry := withoutNames e.registry i (e.hierarchy.element i) } := by
      intro c hc
      rw [log_withoutNames] at hc
      exact ha c hc
    exact accounted_of_steps (fun _ _ _ => id)
      (hm.upkeep hrun fun u => ⟨hm.pending List.mem_cons_self, rfl⟩) hm.upkept.withoutNames hwithout

end Enclosed

namespace Stages

variable (hst : Stages p rs d₁ d₂ d₃ d₄ d₅ d₆ d')
include hst

/-- A name that was taken away is one that a nested enum had at the top. -/
theorem outgrew_of_former (hf : Enclosed.formerNames d₄ u i name) :
    d'.hierarchy.Outgrew rs u i name := by
  obtain ⟨hi, rfl⟩ := hf
  obtain ⟨hroot, hsome⟩ := mem_nestedEnums.1 hi
  obtain ⟨q, hq⟩ := Option.isSome_iff_exists.1 hsome
  have ho := hst.sound_named.orderly
  have henum : i ∈ d₄.hierarchy.enums := (List.mem_filter.1 hroot).1
  have hlt := lt_size_of_mem_rootEnums hst.sound_named i hroot
  have howner : d'.hierarchy.owner i = .element q := by
    have hlt₅ : i < d₅.hierarchy.size := hst.enums.size ▸ hlt
    have hmem : i ∈ d'.hierarchy.walkAll := by
      refine hst.mem_walkAll_of_indexed (hst.indexed_finished.2 (Hierarchy.mem_indexed.2
        ⟨Nat.lt_of_lt_of_le hlt₅ hst.invokers.size, ?_⟩))
      rw [hst.invokers.kind hlt₅, hst.enums.kind, (ho.mem_rootEnums.1 hroot).1]
      rfl
    rw [hst.finish.owner (hst.sound_finished.orderly.mem_walkAll_iff.1 hmem),
      hst.invokers.owner hlt₅, (hst.enums.moved hroot hq).1]
  cases u with
  | native =>
    obtain ⟨r, hr, htop⟩ := hst.enumsFrom_named.exists_zip henum
    rw [← hst.enums_finished] at hr
    have hname : d₄.hierarchy.called .native i = r.name := htop.fullName
    rw [hname]
    exact .native hr howner
  | managed =>
    refine .managed (hst.enums_finished ▸ henum) howner ?_
    rw [← hst.enclosed.managedName_rootEnum hroot]
    exact (congrArg Prod.fst (hst.finish.managed i)).trans
      (congrArg Prod.fst (hst.invokers.managed (hst.enums.size ▸ hlt)))

theorem accounted_finished : d'.Accounted (d'.hierarchy.Outgrew rs) := by
  have hcalled : d₆.Accounted (Enclosed.formerNames d₄) :=
    accounted_of_steps (fun _ _ _ h => h.elim) hst.upkeep_called hst.enclosed.upkept
      hst.enclosed.accounted
  intro c hc
  rw [hst.resolved.1] at hc
  obtain ⟨x, y, hr⟩ := hcalled c hc
  refine ⟨x, y, (hr.mono fun _ _ _ hf => hst.outgrew_of_former hf).keep (fun i hi => ?_)
    fun i _ u n hb => hb.imp_right (Or.imp_left hst.called_finished.trans)⟩
  exact ⟨hst.indexed_finished.2 hi, by rw [hst.finish.kind]⟩

end Stages

/-- A clash over which the strict build of a forest fails is noticed in the other one. -/
theorem clash_of_strict (hb : ((p.under .rekey).build rs).result = .ok h)
    (hs : ((p.under .strict).build rs).result = .error (.duplicate c)) :
    .clash c ∈ ((p.under .rekey).build rs).notices := by
  obtain ⟨d, hd, -⟩ := build_ok hb
  rw [notices_of_build hb hd]
  have hempty : ¬ rs.isEmpty = true := by
    intro hempty
    rw [Plan.build, if_pos hempty] at hb
    cases hb
  have hbeside := (agrees_passes (p.under .rekey) rs).beside ⟨rfl, fun _ hn => by cases hn⟩
  rw [Plan.build, if_neg hempty, passes_under p .strict .rekey rs, ← blank_strict] at hs
  rw [hd] at hbeside
  generalize (p.under .rekey).passes rs (p.under .rekey).blank.strict = strict at hbeside hs
  cases hbeside with
  | same => cases hs
  | clash hq hlog =>
    cases hs
    change d.registry.log = _ at hlog
    rw [hlog]
    exact List.mem_append_right _ List.mem_cons_self

/-- For each clash that a build notices, or over which the strict build fails where this one
succeeds, there are two types or namespaces of the clash's kinds in the end that bear its name, or
bore it as enums at the top; a kind in front of the name makes no difference. -/
theorem rivals_of_build (hb : (p.build rs).result = .ok h)
    (hc : .clash c ∈ (p.build rs).notices ∨
      ((p.under .strict).build rs).result = .error (.duplicate c)) :
    ∃ x ∈ h.walkAll, ∃ y ∈ h.walkAll, h.Rivals (h.Outgrew rs) c x y := by
  have hc : .clash c ∈ (p.build rs).notices := by
    refine hc.elim id fun hs => ?_
    cases hp : p.settings.policy with
    | rekey =>
      have hrekey : p.under .rekey = p := by rw [Plan.under, ← hp]
      rw [← hrekey] at hb ⊢
      exact clash_of_strict hb hs
    | strict =>
      have hstrict : p.under .strict = p := by rw [Plan.under, ← hp]
      rw [hstrict, hb] at hs
      cases hs
  obtain ⟨d, hd, rfl⟩ := build_ok hb
  obtain ⟨d₁, d₂, d₃, d₄, d₅, d₆, hst⟩ := stages_of_passes hd
  rw [notices_of_build hb hd] at hc
  obtain ⟨x, y, hr⟩ := hst.accounted_finished c hc
  exact ⟨x, hst.mem_walkAll_of_indexed hr.existing.1, y, hst.mem_walkAll_of_indexed hr.added.1, hr⟩

/-- A class and a namespace with one full name. -/
theorem rivals_of_sample : ∃ h, (samplePlan.build clashingRecords).result = .ok h ∧
    .clash ⟨"a.B", .native, .cls, .ns⟩ ∈ (samplePlan.build clashingRecords).notices ∧
      ∃ x ∈ h.walkAll, ∃ y ∈ h.walkAll,
        h.Rivals (h.Outgrew clashingRecords) ⟨"a.B", .native, .cls, .ns⟩ x y := by
  obtain ⟨h, hb, -⟩ := exists_built samplePlan clashingRecords (fun _ => true) (by decide +kernel)
  have hc : .clash ⟨"a.B", .native, .cls, .ns⟩ ∈ (samplePlan.build clashingRecords).notices := by
    decide +kernel
  exact ⟨h, hb, hc, rivals_of_build hb (.inl hc)⟩

/-- A namespace, and an enum whose managed name is the namespace's until it is nested. -/
def provisionalRecords : List Record :=
  [.plain (.ns {}) "Foo" [], .plain (.ns {}) "x" [], .plain (.enum {}) "x.Foo" []]

/-- A clash is noticed over the name, and the strict build fails over it, though in the end no enum
has it. -/
theorem rivals_apart : ∃ h, (samplePlan.build provisionalRecords).result = .ok h ∧
    .clash ⟨"Foo", .managed, .ns, .enum⟩ ∈ (samplePlan.build provisionalRecords).notices ∧
      ((samplePlan.under .strict).build provisionalRecords).result =
        .error (.duplicate ⟨"Foo", .managed, .ns, .enum⟩) ∧
        ∀ y ∈ h.walkAll, h.kind y = .enum → (h.element y).fullManagedName ≠ some "Foo" := by
  obtain ⟨h, hb, hq⟩ := exists_built samplePlan provisionalRecords
    (fun h => decide (∀ y ∈ h.walkAll, h.kind y = .enum →
      (h.element y).fullManagedName ≠ some "Foo")) (by decide +kernel)
  exact ⟨h, hb, by decide +kernel, build_fails _ _ _ (by decide +kernel), of_decide_eq_true hq⟩

end BindingTree

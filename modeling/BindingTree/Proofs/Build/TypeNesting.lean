import BindingTree.Proofs.Build.Gathered

/-! What nesting types comes to. A member of a namespace whose qualifier leads to a class ends under
that class, everything else stays, and names and index are left alone. So one sweep is enough: what
a moved type is below is no namespace, so a second sweep does not look at it, and what the second
sweep looks at stayed in the first. -/

namespace BindingTree

open Build Naming

variable {p : Plan} {rs : List Record} {d d₁ d' : Draft} {h h' : Hierarchy} {i c : ElementId}
  {is : List ElementId} {accept : Kind → Bool}

/-! ### Members of namespaces -/

/-- Every namespace is listed at the top, so its members are looked at. -/
theorem Hierarchy.Orderly.mem_listedTypes_iff (ho : h.Orderly) :
    i ∈ listedTypes h ↔ ∃ ns, h.kind ns = .ns ∧ i ∈ h.members ns := by
  rw [mem_listedTypes ho.toWellFormed]
  constructor
  · rintro ⟨ns, hns, howner⟩
    exact ⟨ns, (ho.mem_namespaces.1 hns).1, ho.mem_members.2 howner⟩
  · rintro ⟨ns, hk, hmem⟩
    have howner := ho.mem_members.1 hmem
    refine ⟨ns, ho.mem_namespaces.2 ⟨hk, ?_⟩, howner⟩
    cases hns : h.owner ns with
    | root => rfl
    | element q => exact absurd hns (ho.owner_of_ns hk)
    | detached =>
      have himplements := ho.attached (ho.owner_lt howner) hns
      rw [hk] at himplements
      cases himplements

/-- Whether the part of an element's full name before the last dot leads to something. -/
def Draft.Traced (d : Draft) (i : ElementId) : Prop :=
  ∀ q, Qualifies q (d.hierarchy.fullName i) → ∃ e, d.registry.index.lookup? q none = some e

/-- Whether an element is a member of a namespace and the part of its full name before the last dot
leads to another element, which is a class. -/
def Draft.Nests (d : Draft) (i c : ElementId) : Prop :=
  (∃ ns, d.hierarchy.kind ns = .ns ∧ i ∈ d.hierarchy.members ns) ∧
    d.hierarchy.kind c = .cls ∧ c ≠ i ∧
      ∃ q e, Qualifies q (d.hierarchy.fullName i) ∧ d.registry.index.lookup? q none = some e ∧
        e.id = c

theorem traced_iff : d.Traced i ↔ Resolves d i := by
  unfold Draft.Traced Resolves qualifierTarget?
  constructor
  · intro ht hq
    obtain ⟨q, hq⟩ := Option.ne_none_iff_exists'.1 hq
    obtain ⟨e, he⟩ := ht q (splitLast_eq_some.1 hq)
    rw [hq, Option.bind_some, he]
    exact Option.some_ne_none e
  · intro hr q hq
    have hsplit := splitLast_eq_some.2 hq
    have htarget := hr (by rw [hsplit]; exact Option.some_ne_none q)
    rw [hsplit, Option.bind_some] at htarget
    exact Option.ne_none_iff_exists'.1 htarget

theorem nests_iff (hs : d.Sound) (hi : NoInvoker d.hierarchy) :
    d.Nests i c ↔ i ∈ listedTypes d.hierarchy ∧ nest? Kind.isClass d i = some c := by
  have hclass : (d.hierarchy.kind c).isClass = true ↔ d.hierarchy.kind c = .cls := by
    have hc := hi c
    revert hc
    cases d.hierarchy.kind c <;> decide
  rw [Draft.Nests, hs.orderly.mem_listedTypes_iff, nest?_eq_some]
  simp only [splitLast_eq_some, hclass]
  constructor
  · rintro ⟨hlisted, hk, hne, q, e, hq, he, hid⟩
    exact ⟨hlisted, q, e, hq, he, hid, hne, hk⟩
  · rintro ⟨hlisted, q, e, hq, he, hid, hne, hk⟩
    exact ⟨hlisted, hk, hne, q, e, hq, he, hid⟩

/-! ### The second sweep -/

namespace Build

/-- If every qualifier leads somewhere, all moves are planned. -/
theorem exists_planMoves {m : Moves} (hn : is.Nodup) (hnew : ∀ i ∈ is, m.get? i = none)
    (hres : ∀ i ∈ is, Resolves d i) : ∃ m', planMoves accept m is d = .ok m' d ∧
      m'.entries = m.entries ++ nestMoves accept d is := by
  cases hplan : planMoves accept m is d with
  | ok m' d' =>
    obtain ⟨rfl, -, hentries⟩ := planMoves_ok hn hnew hplan
    exact ⟨m', rfl, hentries⟩
  | error failure d' =>
    obtain ⟨i, hi, q, hq, hl, -⟩ := planMoves_error hn hnew hplan
    refine absurd ?_ (hres i hi (by rw [hq]; exact Option.some_ne_none q))
    rw [qualifierTarget?, hq]
    exact hl

/-- Where every qualifier leads somewhere and nothing is to move, the pass leaves the draft as it
is. -/
theorem nestTypes_of_stayed (hw : d.hierarchy.WellFormed)
    (hstay : ∀ i ∈ listedTypes d.hierarchy, Resolves d i ∧ nest? Kind.isClass d i = none) :
    nestTypes d = .ok () d := by
  have hmoves : nestMoves Kind.isClass d (listedTypes d.hierarchy) = [] := by
    refine List.filterMap_eq_nil_iff.2 fun i hi => ?_
    rw [(hstay i hi).2, Option.map_none]
  obtain ⟨m, hplan, hentries⟩ := exists_planMoves (nodup_listedTypes hw) (m := {})
    (fun _ _ => rfl) fun i hi => (hstay i hi).1
  have hnone : m.entries = [] := hentries.trans hmoves
  have hmade : onHierarchy m.apply d = .ok [] d := by
    refine onHierarchy_ok.2 ⟨d.hierarchy, Moves.apply_ok.2 ⟨?_, ?_⟩, rfl⟩
    · rw [hnone]
      rfl
    · rw [KeyedList.keys, hnone]
      rfl
  exact bind_ok.2 ⟨_, d, rfl, bind_ok.2 ⟨m, d, hplan, bind_ok.2 ⟨[], d, hmade, rfl⟩⟩⟩

namespace TypesNested

variable (ht : TypesNested d h')
include ht

theorem qualifierTarget? (i : ElementId) :
    Build.qualifierTarget? { d with hierarchy := h' } i = Build.qualifierTarget? d i := by
  change (splitLast (h'.fullName i)).1.bind _ = _
  rw [ht.fullName]
  rfl

theorem nest? (i : ElementId) :
    Build.nest? accept { d with hierarchy := h' } i = Build.nest? accept d i := by
  rw [Build.nest?, ht.qualifierTarget?, Build.nest?]
  change (_ : Option Entry).bind (fun e => if e.id ≠ i && accept (h'.kind e.id) then _ else _) = _
  simp only [ht.kind]

/-- What is below a namespace when types are nested was there before and did not move. -/
theorem listed_of_nested (hs : d.Sound) (hi : i ∈ listedTypes h') :
    i ∈ listedTypes d.hierarchy ∧ Build.nest? Kind.isClass d i = none := by
  obtain ⟨ns, hk, hmem⟩ := ht.orderly.mem_listedTypes_iff.1 hi
  have howner := ht.orderly.mem_members.1 hmem
  have hunmoved : ∀ c, i ∈ listedTypes d.hierarchy → Build.nest? Kind.isClass d i ≠ some c := by
    intro c hlisted hc
    obtain ⟨-, -, -, -, -, -, hclass⟩ := nest?_eq_some.1 hc
    cases Owner.element.inj ((ht.moved hlisted hc).1.symm.trans howner)
    rw [← ht.kind, hk] at hclass
    cases hclass
  have hlisted : i ∈ listedTypes d.hierarchy := by
    rcases ht.stayed_or_moved i with ⟨hsame, -⟩ | ⟨c, hlisted, -⟩
    · exact hs.orderly.mem_listedTypes_iff.2
        ⟨ns, ht.kind.symm.trans hk, hs.orderly.mem_members.2 (hsame.symm.trans howner)⟩
    · exact hlisted
  exact ⟨hlisted, Option.eq_none_iff_forall_ne_some.2 fun c => hunmoved c hlisted⟩

/-- Once types are nested, nesting them again changes nothing. -/
theorem nestTypes_again (hs : d.Sound) (hres : ∀ i ∈ listedTypes d.hierarchy, Resolves d i) :
    nestTypes { d with hierarchy := h' } = .ok () { d with hierarchy := h' } := by
  refine nestTypes_of_stayed ht.orderly.toWellFormed fun i hi => ?_
  obtain ⟨hlisted, hnone⟩ := ht.listed_of_nested hs hi
  refine ⟨?_, (ht.nest? i).trans hnone⟩
  have hresolves := hres i hlisted
  unfold Resolves at hresolves ⊢
  rw [ht.qualifierTarget?]
  change (splitLast (h'.fullName i)).1 ≠ none → _
  rw [ht.fullName]
  exact hresolves

end TypesNested

end Build

/-! ### The pass -/

/-- The passes before types are nested. -/
def Plan.gather (p : Plan) (rs : List Record) : Build Unit := do
  Build.ingest rs
  Build.bootstrap p.settings

theorem nestable_of_gather (hd : p.gather rs p.blank = .ok () d) : Nestable d := by
  obtain ⟨_, d₁, hingest, hbootstrap⟩ := bind_ok.1 hd
  have hn := nestable_of_ingest hingest
  exact nestable_of_support (bootstrap_ok hn.sound hbootstrap) hn

/-- Nesting types succeeds just when every qualifier of a member of a namespace leads somewhere.
Then the members whose qualifiers lead to classes stand under these, everything else stays where it
is, full names and the index are as before, and a second run moves nothing. -/
theorem nestTypes_exact (hd : p.gather rs p.blank = .ok () d) :
    ((∃ d', nestTypes d = .ok () d') ↔
      ∀ ns i, d.hierarchy.kind ns = .ns → i ∈ d.hierarchy.members ns → d.Traced i) ∧
    ∀ d', nestTypes d = .ok () d' →
      (∀ i c, d.Nests i c → d'.hierarchy.owner i = .element c ∧ i ∈ d'.hierarchy.members c) ∧
      (∀ i, (∀ c, ¬ d.Nests i c) → d'.hierarchy.owner i = d.hierarchy.owner i) ∧
      (∀ i, d'.hierarchy.fullName i = d.hierarchy.fullName i) ∧
      d'.registry.index = d.registry.index ∧ nestTypes d' = .ok () d' := by
  have hn := nestable_of_gather hd
  have ho := hn.sound.orderly
  constructor
  · rw [hn.exists_nestTypes_iff]
    simp only [ho.mem_listedTypes_iff, ← traced_iff]
    exact ⟨fun hres ns i hk hi => hres i ⟨ns, hk, hi⟩, fun hres i ⟨ns, hk, hi⟩ => hres ns i hk hi⟩
  · intro d' hnest
    obtain ⟨hres, h', rfl, ht⟩ := nestTypes_ok hn.sound hn.noInvoker hnest
    refine ⟨fun i c hic => ?_, fun i hstay => ?_, fun i => ht.fullName, rfl,
      ht.nestTypes_again hn.sound hres⟩
    · obtain ⟨hlisted, hc⟩ := (nests_iff hn.sound hn.noInvoker).1 hic
      have howner := (ht.moved hlisted hc).1
      exact ⟨howner, ht.orderly.mem_members.2 howner⟩
    · refine (ht.stayed fun hlisted => Option.eq_none_iff_forall_ne_some.2 fun c hc => ?_).1
      exact hstay c ((nests_iff hn.sound hn.noInvoker).2 ⟨hlisted, hc⟩)

/-- A class that is listed with another namespace than the class it belongs to, which in turn belongs
to a third one. -/
def chainedRecords : List Record :=
  [.plain (.ns {}) "a" [.plain (.cls {}) "b.C.D.E" []],
    .plain (.ns {}) "a.b" [.plain (.cls {}) "C.D" [], .plain (.cls {}) "C" []]]

theorem nestTypes_of_chained : ∃ d d', samplePlan.gather chainedRecords samplePlan.blank = .ok () d ∧
    nestTypes d = .ok () d' ∧ d.hierarchy.owner 1 = .element 0 ∧ d.hierarchy.owner 3 = .element 2 ∧
      d'.hierarchy.owner 1 = .element 3 ∧ d'.hierarchy.owner 3 = .element 4 ∧
        d'.hierarchy.owner 4 = .element 2 ∧ nestTypes d' = .ok () d' := by
  obtain ⟨d, hd, hq⟩ := exists_run (samplePlan.gather chainedRecords) samplePlan.blank
    (fun d => decide (
      (d.hierarchy.kind 0 = .ns ∧ 1 ∈ d.hierarchy.members 0 ∧ d.hierarchy.kind 3 = .cls ∧
        d.hierarchy.fullName 1 = "a.b.C.D.E" ∧
          (d.registry.index.lookup? "a.b.C.D" none).map Entry.id = some 3) ∧
      (d.hierarchy.kind 2 = .ns ∧ 3 ∈ d.hierarchy.members 2 ∧ d.hierarchy.kind 4 = .cls ∧
        d.hierarchy.fullName 3 = "a.b.C.D" ∧
          (d.registry.index.lookup? "a.b.C" none).map Entry.id = some 4) ∧
      d.hierarchy.owner 1 = .element 0 ∧ d.hierarchy.owner 3 = .element 2 ∧
        d.hierarchy.owner 4 = .element 2) &&
      endsIn nestTypes d fun d' => decide (d'.hierarchy.owner 4 = .element 2)) (by decide +kernel)
  rw [Bool.and_eq_true] at hq
  obtain ⟨⟨hk₀, hm₁, hk₃, hf₁, hl₁⟩, ⟨hk₂, hm₃, hk₄, hf₃, hl₃⟩, ho₁, ho₃, -⟩ := of_decide_eq_true hq.1
  obtain ⟨d', hd', hlast⟩ := exists_run nestTypes d _ hq.2
  obtain ⟨hmoved, -, -, -, hagain⟩ := (nestTypes_exact hd).2 d' hd'
  obtain ⟨e₁, he₁, hid₁⟩ := Option.map_eq_some_iff.1 hl₁
  obtain ⟨e₃, he₃, hid₃⟩ := Option.map_eq_some_iff.1 hl₃
  have hfirst : d.Nests 1 3 := ⟨⟨0, hk₀, hm₁⟩, hk₃, by decide, "a.b.C.D", e₁,
    ⟨by decide, "E", by decide, hf₁⟩, he₁, hid₁⟩
  have hsecond : d.Nests 3 4 := ⟨⟨2, hk₂, hm₃⟩, hk₄, by decide, "a.b.C", e₃,
    ⟨by decide, "D", by decide, hf₃⟩, he₃, hid₃⟩
  exact ⟨d, d', hd, hd', ho₁, ho₃, (hmoved 1 3 hfirst).1, (hmoved 3 4 hsecond).1,
    of_decide_eq_true hlast, hagain⟩

end BindingTree

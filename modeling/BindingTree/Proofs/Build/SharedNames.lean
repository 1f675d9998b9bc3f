import BindingTree.Proofs.Build.Rivals

/-! Names that elements of different kinds share. An element that is entered under a name is shown
there, unless one of another kind was there before; and then a clash is noticed. Under an empty managed
name, which only a translator can give, nothing is entered. What is shown stays
shown: an entry gives way to one of its own kind only, or goes with an enum that is renamed. So of two
kinds under one name each is noticed, with one exception. Where two enums have one managed name at
the top and only one of them is nested, the entry they share goes with it, and an invoker that is
made afterwards can take the name unnoticed. -/

namespace BindingTree

open Build
open Naming (Translator)
open Relation (ReflTransGen)

variable {p : Plan} {rs : List Record} {s : Settings} {t : Translator}
  {d d' d₁ d₂ d₃ d₄ d₅ d₆ base : Draft} {h : Hierarchy} {i j x y : ElementId} {u : Table} {k : Kind}
  {name : String} {is : List ElementId} {may : Table → ElementId → String → Prop}
  {but but' : Table → ElementId → Prop}

/-- An element has been named in a table, and is shown there unless it is a managed name that is
empty. -/
structure Draft.Shown (is : List ElementId) (d : Draft) (u : Table) (i : ElementId) : Prop where
  named : d.hierarchy.Named u i
  shows : (u = .managed → d.hierarchy.called u i ≠ "") →
    d.registry.Shows is u (d.hierarchy.kind i) (d.hierarchy.called u i)

/-- Every type and namespace is shown in both tables, but for some. -/
def Draft.AllShown (is : List ElementId) (but : Table → ElementId → Prop) (d : Draft) : Prop :=
  ∀ u, ∀ i ∈ d.hierarchy.indexed, but u i ∨ d.Shown is u i

/-! ### Steps -/

namespace Build

theorem shows_of_upkeep (hst : Upkeep may is d d') (hs : d.registry.Shows is u k name) :
    d'.registry.Shows is u k name := by
  cases hst with
  | enter he =>
    refine hs.insert (fun key e hget hid => ?_) he.out he.insert
    rw [← (he.sound.points hget).2.1, hid]
  | edit hs' hsize hkind hname hindex hlog hquiet =>
    exact hs.of_get? (fun e hget _ => hindex ▸ hget) hlog

theorem shows_of_steps (hst : ReflTransGen (Upkeep may is) d d')
    (hs : d.registry.Shows is u k name) : d'.registry.Shows is u k name := by
  induction hst with
  | refl => exact hs
  | tail _ hst ih => exact shows_of_upkeep hst ih

theorem shown_of_enters (he : Enters is u i d d') (hd : d.Upkept) : d'.Shown is u i := by
  constructor
  · rw [he.hierarchy]
    exact Hierarchy.named_of_called (Registry.insert_cases he.insert).1
  · rw [he.hierarchy]
    exact fun _ => Registry.shows_of_insert hd.traced (by rfl) he.out he.insert

theorem shown_of_fills (hf : Fills is .managed i d d') (hd : d.Upkept) : d'.Shown is .managed i := by
  constructor
  · rw [hf.hierarchy]
    exact hf.named
  · intro hne
    have hfull : d.hierarchy.called .managed i ≠ "" := hf.hierarchy ▸ hne rfl
    exact (shown_of_enters (hf.enters hfull) hd).shows hne

end Build

theorem Draft.Shown.steps (hs : d.Shown is u i) (hst : ReflTransGen (Upkeep may is) d d')
    (hi : i ∈ d.hierarchy.indexed) (hnot : ∀ n, ¬ may u i n) : d'.Shown is u i := by
  obtain ⟨-, hkind, hnamed, hcalled⟩ := called_of_upkeep hst hi hs.named hnot
  refine ⟨hnamed, fun hne => ?_⟩
  rw [hcalled] at hne
  rw [hkind, hcalled]
  exact shows_of_steps hst (hs.shows hne)

namespace Draft.AllShown

theorem imp (ha : d.AllShown is but)
    (hb : ∀ u, ∀ i ∈ d.hierarchy.indexed, but u i → but' u i ∨ d.Shown is u i) :
    d.AllShown is but' :=
  fun u i hi => (ha u i hi).elim (hb u i hi) .inr

/-- What is shown stays so unless its name may go; what is new is to be looked at. -/
theorem steps (ha : d.AllShown is but) (hst : ReflTransGen (Upkeep may is) d d')
    (hmay : ∀ u i n, may u i n → but u i)
    (hnew : ∀ u, ∀ i ∈ d'.hierarchy.indexed, i ∉ d.hierarchy.indexed → but u i ∨ d'.Shown is u i) :
    d'.AllShown is but := by
  intro u i hi
  by_cases hold : i ∈ d.hierarchy.indexed
  · by_cases hb : but u i
    · exact .inl hb
    · refine .inr (((ha u i hold).resolve_left hb).steps hst hold fun n hm => hb (hmay u i n hm))
  · exact hnew u i hi hold

/-- Of two kinds under one name each is noticed. -/
theorem clashed_or_displaced (ha : d.AllShown [] but) (hx : x ∈ d.hierarchy.indexed)
    (hy : y ∈ d.hierarchy.indexed) (hbx : ¬ but u x) (hby : ¬ but u y)
    (hk : d.hierarchy.kind x ≠ d.hierarchy.kind y)
    (hne : u = .managed → d.hierarchy.called u x ≠ "")
    (hn : d.hierarchy.called u x = d.hierarchy.called u y) :
    d.registry.Clashed u (d.hierarchy.called u x) ∨
      d.registry.Displaced u (d.hierarchy.called u x) := by
  have hshown := ((ha u y hy).resolve_left hby).shows (hn ▸ hne)
  rw [← hn] at hshown
  exact (((ha u x hx).resolve_left hbx).shows hne).clashed_or_displaced hshown hk

end Draft.AllShown

/-! ### Before enums are nested -/

/-- The managed table is yet to be filled. -/
def managedOnly : Table → ElementId → Prop := fun u _ => u = .managed

theorem allShown_of_support (hst : Support s d d') (hs : d.Sound) (hd : d.Upkept)
    (ha : d.AllShown [] managedOnly) : d'.AllShown [] managedOnly := by
  have hsteps : ReflTransGen (Upkeep never []) d d' := upkeep_of_support hst hs
  refine ha.steps hsteps (fun _ _ _ h => False.elim h) fun u i hi hnot => ?_
  cases u with
  | managed => exact .inl rfl
  | native =>
    -- Only an element that is made and entered can be new.
    have hge : d.hierarchy.size ≤ i :=
      Nat.not_lt.1 fun hlt => hnot ((mem_indexed_of_upkeep hsteps hlt).1 hi)
    have hlt := (Hierarchy.mem_indexed.1 hi).1
    obtain ⟨d₁, hedit, hcases⟩ : ∃ d₁, Upkeep never [] d d₁ ∧ (d' = d₁ ∧ _ ∨ _ ∧ _) :=
      support_steps hst hs
    rcases hcases with ⟨rfl, hsize⟩ | ⟨hsize, henter⟩
    · exact absurd (hsize ▸ hlt) (Nat.not_lt.2 hge)
    · rw [henter.hierarchy, hsize] at hlt
      obtain rfl := Nat.le_antisymm (Nat.le_of_lt_succ hlt) hge
      exact .inr (shown_of_enters henter (hd.step hedit))

namespace Enclosed

variable (he : Enclosed p rs d₁ d₂ d₃ d₄ d₅)
include he

theorem allShown_ingested : d₁.AllShown [] managedOnly := by
  have ht := taking_of_ingest he.ingest
  intro u i hi
  cases u with
  | managed => exact .inl rfl
  | native =>
    exact .inr ⟨Hierarchy.named_native, fun _ => ht.shown hi List.not_mem_nil⟩

theorem allShown_nested : d₃.AllShown [] managedOnly := by
  have hupkept := Draft.Upkept.blank.steps he.upkeep_ingested
  have hsupported : d₂.Upkept ∧ d₂.AllShown [] managedOnly := by
    refine (he.sound_ingested.induction (I := fun d => d.Upkept ∧ d.AllShown [] managedOnly)
      Support.sound (fun {d d'} hst hs ha => ?_) he.support ⟨hupkept, he.allShown_ingested⟩).2
    have hsteps : ReflTransGen (Upkeep never []) d d' := upkeep_of_support hst hs
    exact ⟨ha.1.steps hsteps, allShown_of_support hst hs ha.1 ha.2⟩
  refine hsupported.2.steps (.single he.upkeep_nested) (fun _ _ _ h => False.elim h)
    fun u i hi hnot => absurd ?_ hnot
  rwa [Hierarchy.mem_indexed, he.types.size, he.types.kind, ← Hierarchy.mem_indexed] at hi

/-- Each type and namespace is entered when it gets its managed name. -/
theorem allShown_named : d₄.AllShown [] fun _ _ => False := by
  have hs := he.sound_nested
  have hstart : d₃.AllShown [] fun u i => u = .managed ∧ i ∈ d₃.hierarchy.walkAll := by
    refine he.allShown_nested.imp fun u i hi hu =>
      .inl ⟨hu, hs.orderly.mem_walkAll_iff.2 fun hdet => ?_⟩
    obtain ⟨hlt, hk⟩ := Hierarchy.mem_indexed.1 hi
    rw [hs.orderly.attached hlt hdet] at hk
    cases hk
  have hend := (forM_ok (I := fun l d => Anonymous l d ∧ d.Upkept ∧
    d.AllShown [] fun u i => u = .managed ∧ i ∈ l) ?_ ⟨he.anonymous_nested, he.upkept_nested, hstart⟩
    he.names).2.2
  · exact hend.imp fun u i _ hb => absurd hb.2 List.not_mem_nil
  · rintro i l d d' ⟨han, hd, ha⟩ hrun
    have hlt := han.lt_size i List.mem_cons_self
    obtain ⟨d₀, hedit, hfill, -⟩ : ∃ d₀, Upkeep never [] d d₀ ∧ _ :=
      assign_steps han.sound hlt han.renewable (fun _ => List.not_mem_nil) hrun
    have hsteps : ReflTransGen (Upkeep never []) d d' :=
      upkeep_of_assign han.sound hlt han.renewable (fun _ => List.not_mem_nil) hrun
    have hsame := namedOver_of_assign hrun
    refine ⟨han.assign hrun, hd.steps hsteps, (ha.steps hsteps (fun _ _ _ h => False.elim h)
      fun u j hj hnot => absurd ?_ hnot).imp fun u j hj hb => ?_⟩
    · rwa [Hierarchy.mem_indexed, hsame.size, hsame.kind, ← Hierarchy.mem_indexed] at hj
    · obtain ⟨rfl, hmem⟩ := hb
      rcases List.mem_cons.1 hmem with rfl | hmem
      · have hfilled := hfill ((mem_indexed_of_upkeep hsteps hlt).1 hj)
        exact .inr (shown_of_fills hfilled (hd.step hedit))
      · exact .inl ⟨rfl, hmem⟩

end Enclosed

/-! ### Nesting enums -/

namespace Build

/-- An enum at the top whose name is that of an enum that is nested. -/
structure Hidden (base : Draft) (u : Table) (i : ElementId) : Prop where
  kind : base.hierarchy.kind i = .enum
  stays : i ∉ nestedEnums base
  behind : ∃ j ∈ nestedEnums base, base.hierarchy.called u j = base.hierarchy.called u i

/-- What is shown by an enum that is nested is the name of another one, or hidden. -/
theorem shown_or_hidden (hs : d.Sound) (hd : d.Upkept) (hi : d.Shown [] u i) :
    (i ∈ nestedEnums d ∨ Hidden d u i) ∨ d.Shown (nestedEnums d) u i := by
  by_cases hmem : i ∈ nestedEnums d
  · exact .inl (.inl hmem)
  by_cases hne : u = .managed → d.hierarchy.called u i ≠ ""
  case neg => exact .inr ⟨hi.named, fun h => absurd h hne⟩
  rcases hi.shows hne with hc | hdis | ⟨e, hget, hk, -⟩
  · exact .inr ⟨hi.named, fun _ => .inl hc⟩
  · exact .inr ⟨hi.named, fun _ => .inr (.inl hdis)⟩
  by_cases hout : e.id ∈ nestedEnums d
  · rcases hd.traced hget with hname | hdis
    · refine .inl (.inr ⟨?_, hmem, e.id, hout, hname.symm⟩)
      rw [← hk, ← (hs.points hget).2.1]
      exact kind_of_mem_nestedEnums hs hout
    · exact .inr ⟨hi.named, fun _ => .inr (.inl hdis)⟩
  · exact .inr ⟨hi.named, fun _ => .inr (.inr ⟨e, hget, hk, hout⟩)⟩

theorem shown_withoutNames {e : Element} (hj : d.Shown (i :: is) u j) :
    ({ d with registry := withoutNames d.registry i e } : Draft).Shown is u j where
  named := hj.named
  shows hne := by
    refine ((hj.shows hne).of_get? (fun e hget hout => get?_withoutNames hget ?_) ?_).mono
      (List.subset_cons_self i is)
    · rintro rfl
      exact hout List.mem_cons_self
    · rw [log_withoutNames]
      exact List.Subset.refl _

/-- An enum is entered under its new names in its round. -/
theorem Midway.shown (hm : Midway base (i :: is) d) (hd : renameEnum t i d = .ok () d')
    (u : Table) : d'.Shown is u i := by
  obtain ⟨e₁, e₂, e₃, e₄, hfull, hnative, hname, hmanaged, hrest, -⟩ :=
    rename_steps hm.sound hm.enum hm.attached hd hm.upkept.filed hm.not_mem
  have hd₁ := hm.upkept.withoutNames.step hfull
  have hd₃ := (hd₁.enter hnative).step hname
  have hmem : i ∈ e₄.hierarchy.indexed := by
    rw [hmanaged.hierarchy]
    exact hmanaged.mem
  have hshown : e₄.Shown is u i := by
    cases u with
    | native =>
      have hmem₂ : i ∈ e₂.hierarchy.indexed := by
        rw [hnative.hierarchy]
        exact hnative.mem
      have hkept := (shown_of_enters hnative hd₁).steps (.single hname) hmem₂ fun n h => by cases h.1
      have hlast : ReflTransGen (Upkeep never is) e₃ e₄ := hmanaged.upkeep
      exact hkept.steps hlast hmanaged.mem fun _ h => h
    | managed => exact shown_of_fills hmanaged hd₃
  exact hshown.steps hrest hmem fun _ h => h

end Build

theorem Enclosed.allShown (he : Enclosed p rs d₁ d₂ d₃ d₄ d₅) : d₅.AllShown [] (Hidden d₄) := by
  have hend := (nestEnums_rounds (I := fun is d => d.AllShown is fun u i => i ∈ is ∨ Hidden d₄ u i)
    he.sound_named he.upkept_named (fun h hsame u i hi => ?_)
    (fun i is d d' hm ha hrun hm' => ?_) he.nesting).2
  · exact hend.imp fun u i _ hb => .inl (hb.resolve_left List.not_mem_nil)
  · have hmem : i ∈ d₄.hierarchy.indexed := by
      rwa [Hierarchy.mem_indexed, hsame.size, hsame.kind, ← Hierarchy.mem_indexed] at hi
    have hshown := (he.allShown_named u i hmem).resolve_left id
    refine (shown_or_hidden he.sound_named he.upkept_named hshown).imp_right fun hs => ?_
    have hcalled : h.called u i = d₄.hierarchy.called u i := by
      rw [Hierarchy.called, hsame.element, Hierarchy.called]
    refine ⟨?_, by rw [hsame.kind, hcalled]; exact hs.shows⟩
    rw [Hierarchy.Named, hsame.element]
    exact hs.named
  · have hwithout : Draft.AllShown is (fun u j => j ∈ i :: is ∨ Hidden d₄ u j)
        { d with registry := withoutNames d.registry i (d.hierarchy.element i) } :=
      fun u j hj => (ha u j hj).imp_right shown_withoutNames
    have hsteps : ReflTransGen (Upkeep (fun _ j _ => j = i) is) _ d' := hm.upkeep hrun fun _ => rfl
    refine (hwithout.steps hsteps (fun u j n hji => .inl (hji ▸ List.mem_cons_self))
      fun u j hj hnot => absurd (hm.indexed.2 (hm'.indexed.1 hj)) hnot).imp fun u j _ hb => ?_
    rcases hb with hmem | hhidden
    · rcases List.mem_cons.1 hmem with rfl | hmem
      · exact .inr (hm.shown hrun u)
      · exact .inl (.inl hmem)
    · exact .inl (.inr hhidden)

/-! ### Invokers -/

namespace Build

/-- No enum is hidden in the native table: enums of one full name have one place. -/
theorem not_hidden_native (hmem : i ∈ d.hierarchy.rootEnums) : ¬ Hidden d .native i := by
  rintro ⟨hk, hstays, j, hj, hname⟩
  obtain ⟨o, ho⟩ := Option.isSome_iff_exists.1 (mem_nestedEnums.1 hj).2
  obtain ⟨q, e, hq, he, rfl, -, howns⟩ := nest?_eq_some.1 ho
  have hname : d.hierarchy.fullName j = d.hierarchy.fullName i := hname
  have hi : nest? ownsEnums d i = some e.id := by
    refine nest?_eq_some.2 ⟨q, e, hname ▸ hq, he, rfl, fun hid => ?_, howns⟩
    rw [hid, hk] at howns
    cases howns
  exact hstays (mem_nestedEnums.2 ⟨hmem, by rw [hi]; rfl⟩)

theorem allShown_of_makeInvoker (hs : d.Sound) (hk : d.hierarchy.kind i = .iface) (hu : d.Upkept)
    (ha : d.AllShown [] but) (hd : makeInvoker p i d = .ok () d') : d'.AllShown [] but := by
  refine ha.steps (upkeep_of_makeInvoker hs hk hd) (fun _ _ _ h => False.elim h)
    fun u j hj hnot => .inr ?_
  have hge : d.hierarchy.size ≤ j := Nat.not_lt.1 fun hlt =>
    hnot ((mem_indexed_of_upkeep (upkeep_of_makeInvoker hs hk hd) hlt).1 hj)
  obtain ⟨d₁, d₂, d₃, hbefore, hmanaged, hnative, hafter, hsize⟩ := invoker_steps hs hk hd
  have hlt := (Hierarchy.mem_indexed.1 hj).1
  rw [hsize] at hlt
  obtain rfl := Nat.le_antisymm (Nat.le_of_lt_succ hlt) hge
  have hu₁ := hu.steps hbefore
  have hfilled : ReflTransGen (Upkeep never []) d₁ d₂ := hmanaged.upkeep
  have hu₂ := hu₁.steps hfilled
  cases u with
  | native =>
    have hmem : d.hierarchy.size ∈ d₃.hierarchy.indexed := hnative.hierarchy ▸ hnative.mem
    exact (shown_of_enters hnative hu₂).steps (.single hafter) hmem fun _ h => h
  | managed =>
    exact (shown_of_fills hmanaged hu₁).steps (.tail (.single (.enter hnative)) hafter) hnative.mem
      fun _ h => h

end Build

namespace Stages

variable (hst : Stages p rs d₁ d₂ d₃ d₄ d₅ d₆ d')
include hst

theorem allShown_called : d₆.AllShown [] (Hidden d₄) :=
  (makeInvokers_rounds (I := fun d => d.Upkept ∧ d.AllShown [] (Hidden d₄)) hst.sound_enclosed
    ⟨hst.enclosed.upkept, hst.enclosed.allShown⟩
    (fun _ _ _ hs hk hI hrun => ⟨hI.1.steps (upkeep_of_makeInvoker hs hk hrun),
      allShown_of_makeInvoker hs hk hI.1 hI.2 hrun⟩) hst.calling).2

end Stages

/-! ### In the end -/

/-- An enum at the top and an invoker, where the enum's managed name is also one that a nested enum
had at the top. -/
structure Hierarchy.Eclipsed (rs : List Record) (h : Hierarchy) (x y : ElementId) : Prop where
  enum : h.kind x = .enum
  top : h.owner x = .root
  invoker : h.kind y = .invoker
  former : ∃ j, h.Outgrew rs .managed j (h.called .managed x)

namespace Stages

variable (hst : Stages p rs d₁ d₂ d₃ d₄ d₅ d₆ d')
include hst

/-- What shares its name with a hidden enum is noticed, or is an invoker that was made later. -/
theorem clashed_or_eclipsed (hhidden : Hidden d₄ u x) (hx : x ∈ d₆.hierarchy.indexed)
    (hy : y ∈ d₆.hierarchy.indexed) (hk : d₆.hierarchy.kind x ≠ d₆.hierarchy.kind y)
    (hne : u = .managed → d₆.hierarchy.called u x ≠ "")
    (hn : d₆.hierarchy.called u x = d₆.hierarchy.called u y) :
    (d₆.registry.Clashed u (d₆.hierarchy.called u x) ∨
      d₆.registry.Displaced u (d₆.hierarchy.called u x)) ∨
      u = .managed ∧ d'.hierarchy.Eclipsed rs x y := by
  have hroot := hst.enclosed.mem_rootEnums hhidden.kind
  have hltx : x < d₅.hierarchy.size :=
    hst.enums.size ▸ lt_size_of_mem_rootEnums hst.sound_named x hroot
  have hindexed : ∀ {i}, i ∈ d₆.hierarchy.indexed → i < d₅.hierarchy.size →
      i ∈ d₄.hierarchy.indexed := fun {i} hi hlt =>
    hst.enclosed.midway.indexed.1 ((mem_indexed_of_upkeep hst.upkeep_called hlt).1 hi)
  have hkind : ∀ {i}, i < d₅.hierarchy.size → d₆.hierarchy.kind i = d₄.hierarchy.kind i :=
    fun hlt => (hst.invokers.kind hlt).trans (congrFun hst.enums.kind _)
  have hcalled : ∀ {i}, i ∈ d₆.hierarchy.indexed → i < d₅.hierarchy.size → i ∉ nestedEnums d₄ →
      d₆.hierarchy.called u i = d₄.hierarchy.called u i := fun hi hlt hnot =>
    (hst.called_of_enclosed hlt).trans (hst.enclosed.called_kept (hindexed hi hlt) hnot)
  have hnamed := hcalled hx hltx hhidden.stays
  have hky : ∀ hlt : y < d₅.hierarchy.size, d₄.hierarchy.kind x ≠ d₄.hierarchy.kind y :=
    fun hlt => by rwa [← hkind hltx, ← hkind hlt]
  by_cases hlt : y < d₅.hierarchy.size
  · -- Both were there before enums were nested, and have the names that they had.
    have hnot : y ∉ nestedEnums d₄ := fun hmem =>
      hky hlt (hhidden.kind.trans (kind_of_mem_nestedEnums hst.sound_named hmem).symm)
    have hsame : d₄.hierarchy.called u x = d₄.hierarchy.called u y := by
      rw [← hnamed, hn, hcalled hy hlt hnot]
    have hlog : d₄.registry.log ⊆ d₆.registry.log :=
      List.Subset.trans hst.enclosed.midway.log (log_subset_of_upkeep hst.upkeep_called)
    rw [hnamed] at hne ⊢
    exact .inl ((hst.enclosed.allShown_named.clashed_or_displaced (hindexed hx hltx)
      (hindexed hy hlt) id id (hky hlt) hne hsame).imp (·.mono hlog) (·.mono hlog))
  · cases u with
    | native => exact absurd hhidden (not_hidden_native hroot)
    | managed =>
      obtain ⟨j, hj, hjx⟩ := hhidden.behind
      have hmem : x ∈ d'.hierarchy.walkAll := hst.mem_walkAll_of_indexed (hst.indexed_finished.2 hx)
      refine .inr ⟨rfl, ?_, ?_, ?_, j, ?_⟩
      · rw [hst.finish.kind, hkind hltx, hhidden.kind]
      · have hstays : ¬ (nest? ownsEnums d₄ x).isSome = true := fun h =>
          hhidden.stays (mem_nestedEnums.2 ⟨hroot, h⟩)
        rw [hst.finish.owner (hst.sound_finished.orderly.mem_walkAll_iff.1 hmem),
          hst.invokers.owner hltx, (hst.enums.stayed fun _ => Option.not_isSome_iff_eq_none.1 hstays).1,
          (hst.sound_named.orderly.mem_rootEnums.1 hroot).2]
      · rw [hst.finish.kind, (hst.invokers.made (Nat.not_lt.1 hlt) (Hierarchy.mem_indexed.1 hy).1).1]
      · refine hst.outgrew_of_former ⟨hj, ?_⟩
        rw [hjx, hst.called_finished, hnamed]

end Stages

/-- Two elements of different kinds that share a name in the end, other than an empty managed one, do
not do so unnoticed: a clash is noticed over the name, or over a name that makes it with a kind in
front. The only other way is that an invoker takes the managed name of an enum at the top, which a
nested enum once had there too. -/
theorem noticed_of_shared (hb : (p.build rs).result = .ok h) (hx : x ∈ h.walkAll)
    (hy : y ∈ h.walkAll) (hix : (h.kind x).isIndexed = true) (hiy : (h.kind y).isIndexed = true)
    (hk : h.kind x ≠ h.kind y) (hne : u = .managed → h.called u x ≠ "")
    (hn : h.called u x = h.called u y) :
    (∃ c, .clash c ∈ (p.build rs).notices ∧ c.table = u ∧
      (c.name = h.called u x ∨ c.added.keyed c.name = h.called u x)) ∨
      u = .managed ∧ (h.Eclipsed rs x y ∨ h.Eclipsed rs y x) := by
  obtain ⟨d, hd, rfl⟩ := build_ok hb
  obtain ⟨d₁, d₂, d₃, d₄, d₅, d₆, hst⟩ := stages_of_passes hd
  have hindexed : ∀ {i}, i ∈ d.hierarchy.walkAll → (d.hierarchy.kind i).isIndexed = true →
      i ∈ d₆.hierarchy.indexed := fun hi hk => hst.indexed_finished.1
    (Hierarchy.mem_indexed.2 ⟨hst.sound_finished.orderly.lt_size_of_mem_walkAll hi, hk⟩)
  have hx := hindexed hx hix
  have hy := hindexed hy hiy
  rw [hst.finish.kind] at hk
  rw [hst.called_finished] at hne
  rw [hst.called_finished, hst.called_finished] at hn
  suffices hclash : (d₆.registry.Clashed u (d₆.hierarchy.called u x) ∨
      d₆.registry.Displaced u (d₆.hierarchy.called u x)) ∨
        u = .managed ∧ (d.hierarchy.Eclipsed rs x y ∨ d.hierarchy.Eclipsed rs y x) by
    rw [notices_of_build hb hd, hst.resolved.1, hst.called_finished]
    refine hclash.imp_left fun h => h.elim ?_ ?_
    · rintro ⟨c, hc, ht, hname⟩
      exact ⟨c, hc, ht, .inl hname⟩
    · rintro ⟨c, hc, ht, hkey⟩
      exact ⟨c, hc, ht, .inr hkey⟩
  by_cases hhx : Hidden d₄ u x
  · exact (hst.clashed_or_eclipsed hhx hx hy hk hne hn).imp_right (And.imp_right .inl)
  by_cases hhy : Hidden d₄ u y
  · rw [hn]
    exact (hst.clashed_or_eclipsed hhy hy hx hk.symm (hn ▸ hne) hn.symm).imp_right (And.imp_right .inr)
  · exact .inl (hst.allShown_called.clashed_or_displaced hx hy hhx hhy hk hne hn)

/-- A class and a namespace with one full name. -/
theorem noticed_of_clashing : ∃ h, (samplePlan.build clashingRecords).result = .ok h ∧
    h.called .native 1 = "a.B" ∧ h.called .native 2 = "a.B" ∧
      ∃ c, .clash c ∈ (samplePlan.build clashingRecords).notices ∧ c.table = .native ∧
        (c.name = "a.B" ∨ c.added.keyed c.name = "a.B") := by
  obtain ⟨h, hb, hq⟩ := exists_built samplePlan clashingRecords
    (fun h => decide (1 ∈ h.walkAll ∧ 2 ∈ h.walkAll ∧ h.kind 1 = .cls ∧ h.kind 2 = .ns ∧
      h.called .native 1 = "a.B" ∧ h.called .native 2 = "a.B")) (by decide +kernel)
  obtain ⟨hx, hy, hcls, hns, hnx, hny⟩ := of_decide_eq_true hq
  have hnoticed := noticed_of_shared (u := .native) hb hx hy (by rw [hcls]; rfl) (by rw [hns]; rfl)
    (by rw [hcls, hns]; decide) (fun hu => by cases hu) (hnx.trans hny.symm)
  rw [hnx] at hnoticed
  exact ⟨h, hb, hnx, hny, hnoticed.resolve_right fun h => by cases h.1⟩

/-- An interface, and two enums with the managed name of its invoker. -/
def eclipsingRecords : List Record :=
  let given (name : String) : Record :=
    ⟨{ content := .enum {}, name, managedName := some "A.FaceInvoker" }, []⟩
  [.plain (.ns {}) "a" [.plain (.iface {}) "Face" []], given "x", given "a.y"]

/-- The enum that stays at the top and the invoker share a name, and nothing is noticed. -/
theorem unnoticed_of_eclipsing : ∃ h, (samplePlan.build eclipsingRecords).result = .ok h ∧
    2 ∈ h.walkAll ∧ 8 ∈ h.walkAll ∧ h.kind 2 = .enum ∧ h.kind 8 = .invoker ∧
      h.called .managed 2 = "A.FaceInvoker" ∧ h.called .managed 8 = "A.FaceInvoker" ∧
        h.Eclipsed eclipsingRecords 2 8 ∧ (samplePlan.build eclipsingRecords).notices = [] := by
  obtain ⟨h, hb, hq⟩ := exists_built samplePlan eclipsingRecords
    (fun h => decide ((2 ∈ h.walkAll ∧ 8 ∈ h.walkAll ∧ h.kind 2 = .enum ∧ h.kind 8 = .invoker ∧
      h.called .managed 2 = "A.FaceInvoker" ∧ h.called .managed 8 = "A.FaceInvoker") ∧
        h.owner 2 = .root ∧ 3 ∈ h.enums ∧ h.owner 3 = .element 0 ∧
          (h.element 3).managedName = some "A.FaceInvoker")) (by decide +kernel)
  obtain ⟨⟨hx, hy, hkx, hky, hnx, hny⟩, htop, hi, ho, hm⟩ := of_decide_eq_true hq
  have hformer : h.Outgrew eclipsingRecords .managed 3 (h.called .managed 2) :=
    hnx ▸ .managed hi ho hm
  exact ⟨h, hb, hx, hy, hkx, hky, hnx, hny, ⟨hkx, htop, hky, 3, hformer⟩, by decide +kernel⟩

/-- An empty managed name is no key: a namespace and a class share it unnoticed. -/
theorem unnoticed_of_blank : ∃ h, (blankPlan.build sampleRecords).result = .ok h ∧
    0 ∈ h.walkAll ∧ 1 ∈ h.walkAll ∧ h.kind 0 = .ns ∧ h.kind 1 = .cls ∧
      h.called .managed 0 = "" ∧ h.called .managed 1 = "" ∧
        (blankPlan.build sampleRecords).notices = [] := by
  obtain ⟨h, hb, hq⟩ := exists_built blankPlan sampleRecords
    (fun h => decide (0 ∈ h.walkAll ∧ 1 ∈ h.walkAll ∧ h.kind 0 = .ns ∧ h.kind 1 = .cls ∧
      h.called .managed 0 = "" ∧ h.called .managed 1 = "")) (by decide +kernel)
  obtain ⟨hx, hy, hkx, hky, hnx, hny⟩ := of_decide_eq_true hq
  exact ⟨h, hb, hx, hy, hkx, hky, hnx, hny, by decide +kernel⟩

/-- Two classes of one name. -/
def twofoldRecords : List Record :=
  [.plain (.ns {}) "a" [.plain (.cls {}) "B" [], .plain (.cls {}) "B" []]]

/-- Elements of one kind share their names unnoticed. -/
theorem unnoticed_of_twofold : ∃ h, (samplePlan.build twofoldRecords).result = .ok h ∧
    1 ∈ h.walkAll ∧ 2 ∈ h.walkAll ∧ h.kind 1 = .cls ∧ h.kind 2 = .cls ∧
      (∀ u, h.called u 1 = h.called u 2) ∧
        ∀ c, .clash c ∉ (samplePlan.build twofoldRecords).notices := by
  obtain ⟨h, hb, hq⟩ := exists_built samplePlan twofoldRecords
    (fun h => decide (1 ∈ h.walkAll ∧ 2 ∈ h.walkAll ∧ h.kind 1 = .cls ∧ h.kind 2 = .cls ∧
      h.called .native 1 = h.called .native 2 ∧ h.called .managed 1 = h.called .managed 2))
    (by decide +kernel)
  obtain ⟨hx, hy, hkx, hky, hnative, hmanaged⟩ := of_decide_eq_true hq
  have hnone : (samplePlan.build twofoldRecords).notices = [] := by decide +kernel
  refine ⟨h, hb, hx, hy, hkx, hky, fun u => ?_, fun c hc => ?_⟩
  · cases u with
    | native => exact hnative
    | managed => exact hmanaged
  · rw [hnone] at hc
    cases hc

end BindingTree

import BindingTree.Proofs.Build.EnumRounds

/-! What becomes of the entry of one element. In the pass that gives managed names an element takes
the plain key of its name, if that is not empty and none of another kind has it, and loses it to those
of its kind that get the same name later. In the pass over enums an entry goes only in the round of
its own element, and then the element takes the key of its new name. -/

namespace BindingTree

open Build
open Naming (Translator)
open Relation (ReflTransGen)

variable {p : Plan} {rs : List Record} {t : Translator} {d d' d₁ d₂ d₃ d₄ d₅ base : Draft}
  {i j w : ElementId} {u : Table} {key name : String} {is l A B : List ElementId} {r : Registry}
  {x : Entry} {may : Table → ElementId → String → Prop}

namespace Build

/-! ### Giving managed names -/

/-- A type or a namespace is entered under the name that it is given, unless that is empty. -/
theorem insert_of_assign (hs : d.Sound) (hi : i ∈ d.hierarchy.indexed) (hfree : Renewable never i d)
    (hd : assignManagedName t i d = .ok () d') :
    (d'.hierarchy.called .managed i ≠ "" → Registry.insert .managed (d'.hierarchy.called .managed i)
      ⟨i, d'.hierarchy.kind i⟩ d.registry = .ok () d'.registry) ∧
    (d'.hierarchy.called .managed i = "" → d'.registry = d.registry) := by
  obtain ⟨d₁, -, hfill, -, hreg⟩ : ∃ d₁, Upkeep never [] d d₁ ∧ _ :=
    assign_steps hs (Hierarchy.mem_indexed.1 hi).1 hfree (fun _ => List.not_mem_nil) hd
  have hfill := hfill hi
  rw [hfill.hierarchy, ← hreg]
  exact ⟨fun hne => (hfill.enters hne).insert, hfill.blank⟩

/-- An entry stays while others are named, unless its name is given to one of its kind. -/
theorem reaches_of_forM (ha : Anonymous l d) (hx : d.registry.Reaches u name x)
    (hd : l.forM (assignManagedName t) d = .ok () d')
    (hother : ∀ j ∈ l, j ∈ d'.hierarchy.indexed → d'.hierarchy.called .managed j = name →
      x.kind ≠ d'.hierarchy.kind j ∧ x.id ≠ j) : d'.registry.Reaches u name x := by
  induction l generalizing d with
  | nil =>
    obtain ⟨-, rfl⟩ := pure_ok.1 hd
    exact hx
  | cons i l ih =>
    obtain ⟨_, d₁, hi, hrest⟩ := bind_ok.1 hd
    have hnamed := namedOver_of_forM hrest
    have hfirst := namedOver_of_assign hi
    refine ih (ha.assign hi) ?_ hrest fun j hj => hother j (List.mem_cons_of_mem _ hj)
    by_cases hmem : i ∈ d.hierarchy.indexed
    · have hcalled : d'.hierarchy.called .managed i = d₁.hierarchy.called .managed i := by
        rw [Hierarchy.called, hnamed.others (List.nodup_cons.1 ha.nodup).1, Hierarchy.called]
      obtain ⟨hinsert, hblank⟩ := insert_of_assign ha.sound hmem ha.renewable hi
      by_cases hempty : d₁.hierarchy.called .managed i = ""
      · rwa [hblank hempty]
      refine hx.insert (fun _ hname => ?_) (hinsert hempty)
      rw [← hnamed.kind]
      refine hother i List.mem_cons_self ?_ (hcalled.trans hname.symm)
      rwa [Hierarchy.mem_indexed, hnamed.size, hfirst.size, hnamed.kind, hfirst.kind,
        ← Hierarchy.mem_indexed]
    · have hlt := ha.lt_size i List.mem_cons_self
      rw [registry_of_forM (l := [i]) (t := t) (by simpa using hmem) (by simpa using hlt)
        (bind_ok.2 ⟨(), d₁, hi, rfl⟩)]
      exact hx

/-- A key that misses an element misses it until the element is entered. -/
theorem misses_of_upkeep (hst : ReflTransGen (Upkeep may is) d d') (hi : i ∈ is)
    (hm : d.registry.Misses u key i) : d'.registry.Misses u key i := by
  induction hst with
  | refl => exact hm
  | tail _ hst ih =>
    cases hst with
    | @enter _ j he => exact ih.insert (fun h : j = i => he.out (h ▸ hi)) he.insert
    | edit hs hsize hkind hname hindex hlog hquiet =>
      intro e he
      rw [hindex] at he
      exact ih he

/-- Names are given to some elements first, then to an element, then to the others. -/
theorem Anonymous.split (ha : Anonymous (A ++ l) d)
    (hd : (A ++ l).forM (assignManagedName t) d = .ok () d') : ∃ d₁,
      ReflTransGen (Upkeep never []) d d₁ ∧ Anonymous l d₁ ∧
        l.forM (assignManagedName t) d₁ = .ok () d' := by
  induction A generalizing d with
  | nil => exact ⟨d, .refl, ha, hd⟩
  | cons i A ih =>
    obtain ⟨_, d₀, hi, hrest⟩ := bind_ok.1 hd
    obtain ⟨d₁, hsteps, hl, hrun⟩ := ih (ha.assign hi) hrest
    refine ⟨d₁, .trans ?_ hsteps, hl, hrun⟩
    exact upkeep_of_assign ha.sound (ha.lt_size i List.mem_cons_self) ha.renewable
      (fun _ => List.not_mem_nil) hi

theorem taken_of_upkeep (hst : ReflTransGen (Upkeep may is) d d')
    (ht : d.registry.index.Taken name) : d'.registry.index.Taken name := by
  induction hst with
  | refl => exact ht
  | tail _ hst ih =>
    cases hst with
    | enter he => exact ih.insert he.insert
    | edit hs hsize hkind hname hindex hlog hquiet => rwa [hindex]

/-! ### Nesting enums -/

theorem reaches_withoutNames {e : Element} (hx : r.Reaches u name x) (hi : x.id ≠ i) :
    (withoutNames r i e).Reaches u name x := by
  refine hx.imp (fun hd => hd.mono ?_) fun hget => get?_withoutNames hget hi
  rw [log_withoutNames]
  exact List.Subset.refl _

namespace Midway

variable (hm : Midway base (i :: is) d) (hd : renameEnum t i d = .ok () d')
include hm hd

/-- In its round the entries of an enum go, and it is entered under its new names, if they are not
empty. -/
theorem inserts : ∃ r,
    Registry.insert .native (d'.hierarchy.called .native i) ⟨i, .enum⟩
      (withoutNames d.registry i (d.hierarchy.element i)) = .ok () r ∧
    (d'.hierarchy.called .managed i ≠ "" → Registry.insert .managed (d'.hierarchy.called .managed i)
      ⟨i, .enum⟩ r = .ok () d'.registry) ∧
    (d'.hierarchy.called .managed i = "" → d'.registry = r) := by
  obtain ⟨e₁, e₂, e₃, e₄, hfull, hnative, hname, hmanaged, hrest, hreg₁, hreg₃, hreg₄⟩ :=
    rename_steps hm.sound hm.enum hm.attached hd hm.upkept.filed hm.not_mem
  have hkind := hm.rename hd |>.kind
  have hlast : ReflTransGen (Upkeep never is) e₃ d' := hmanaged.upkeep.trans hrest
  obtain ⟨-, hkind₃, -, hcalled₃⟩ := called_of_upkeep hlast hmanaged.mem hmanaged.named fun _ h => h
  have henum : d'.hierarchy.kind i = .enum := by
    rw [hkind, ← hm.kind, hm.enum]
  have hmem : i ∈ e₂.hierarchy.indexed := hnative.hierarchy ▸ hnative.mem
  have hcalled₂ : e₃.hierarchy.called .native i = e₁.hierarchy.called .native i := by
    have hstay : ∀ n, ¬ formerly d.hierarchy i .managed .native i n := fun n h => by cases h.1
    rw [hname.called hmem Hierarchy.named_native hstay, hnative.hierarchy]
  obtain ⟨-, -, -, hcalled₁⟩ :=
    called_of_upkeep hlast hmanaged.mem Hierarchy.named_native fun _ h => h
  have hkind₁ : e₁.hierarchy.kind i = .enum := by
    rw [← hnative.hierarchy, ← hname.kind (Hierarchy.mem_indexed.1 hmem).1, ← hkind₃, henum]
  refine ⟨e₂.registry, ?_, fun hne => ?_, fun hempty => ?_⟩
  · rw [hcalled₁, hcalled₂, ← hkind₁, ← hreg₁]
    exact hnative.insert
  · rw [hcalled₃] at hne ⊢
    rw [← henum, hkind₃, hreg₄, ← hreg₃]
    exact (hmanaged.enters hne).insert
  · rw [hreg₄, ← hreg₃]
    exact hmanaged.blank (hcalled₃ ▸ hempty)

theorem called_others (hj : j ∈ d.hierarchy.indexed) (hji : j ≠ i) :
    d'.hierarchy.called u j = d.hierarchy.called u j := by
  rw [Hierarchy.called, element_of_rename hm.sound hm.enum hm.attached hd hj hji, Hierarchy.called]

end Midway

end Build

/-- An entry stands under a name, or the name is now that of another element, which keeps it. -/
def Draft.Held (is : List ElementId) (d : Draft) (u : Table) (name : String) (x : Entry) : Prop :=
  d.registry.Reaches u name x ∨
    ∃ j ∈ d.hierarchy.indexed, j ∉ is ∧ j ≠ x.id ∧ d.hierarchy.called u j = name

namespace Build.Midway

variable (hm : Midway base (i :: is) d) (hd : renameEnum t i d = .ok () d')
include hm hd

/-- An entry stays in the round of another element, unless this one takes its name. -/
theorem held (hx : d.Held (i :: is) u name x) (hi : x.id ≠ i) : d'.Held is u name x := by
  have hm' := hm.rename hd
  by_cases hname : d'.hierarchy.called u i = name
  · exact .inr ⟨i, hm'.indexed.2 (hm.indexed.1 hm.mem_indexed), hm.not_mem, hi.symm, hname⟩
  rcases hx with hx | ⟨j, hj, hout, hjx, hcalled⟩
  · obtain ⟨r, hnative, hmanaged, hblank⟩ := hm.inserts hd
    have hx : r.Reaches u name x :=
      (reaches_withoutNames hx hi).insert (fun hu hn => absurd (hu ▸ hn.symm) hname) hnative
    by_cases hempty : d'.hierarchy.called .managed i = ""
    · exact .inl (hblank hempty ▸ hx)
    · exact .inl (hx.insert (fun hu hn => absurd (hu ▸ hn.symm) hname) (hmanaged hempty))
  · rw [List.mem_cons, not_or] at hout
    exact .inr ⟨j, hm'.indexed.2 (hm.indexed.1 hj), hout.2, hjx,
      (hm.called_others hd hj hout.1).trans hcalled⟩

/-- In its own round an enum takes the key of its new managed name, unless that is empty or an element
of another kind has the name. -/
theorem held_self (hne : d'.hierarchy.called .managed i ≠ "") :
    d'.Held is .managed (d'.hierarchy.called .managed i) ⟨i, .enum⟩ := by
  have hm' := hm.rename hd
  obtain ⟨r, hnative, hmanaged, -⟩ := hm.inserts hd
  have hmanaged := hmanaged hne
  by_cases hfree : ∀ ⦃e : Entry⦄,
      (r.index.table .managed).get? (d'.hierarchy.called .managed i) = some e →
        e.kind = .enum ∨ e.id = i
  · exact .inl (Registry.reaches_of_insert hfree hmanaged)
  simp only [not_forall, not_or] at hfree
  obtain ⟨e, he, hkind, hid⟩ := hfree
  have hget : (d.registry.index.table .managed).get? (d'.hierarchy.called .managed i) = some e := by
    refine within_withoutNames ((Registry.get?_of_insert hnative he).resolve_right fun h => ?_)
    cases h.1
  rcases hm.upkept.traced hget with hcalled | hdis
  · have hmem := mem_indexed_of_points hm.sound.points hget
    refine .inr ⟨e.id, hm'.indexed.2 (hm.indexed.1 hmem), fun hpending => hkind ?_, hid,
      (hm.called_others hd hmem hid).trans hcalled.symm⟩
    rw [← (hm.sound.points hget).2.1]
    exact hm.renamable.enum e.id (List.mem_cons_of_mem i hpending)
  · refine .inl (.inl (hdis.mono ?_))
    have hlog := List.Subset.trans (Registry.log_subset_of_insert hnative)
      (Registry.log_subset_of_insert hmanaged)
    rwa [log_withoutNames] at hlog

end Build.Midway

/-! ### Pass by pass -/

namespace Enclosed

variable (he : Enclosed p rs d₁ d₂ d₃ d₄ d₅)
include he

theorem walkAll_named : d₄.hierarchy.walkAll = d₃.hierarchy.walkAll := by
  have hsame := he.namedOver.toSamePlaces
  rw [Hierarchy.walkAll, Hierarchy.walkAll, Hierarchy.rootEnums, Hierarchy.rootEnums, hsame.walk,
    hsame.namespaces, hsame.enums, hsame.owner]

theorem mem_walkAll_named (hi : i ∈ d₄.hierarchy.indexed) : i ∈ d₄.hierarchy.walkAll := by
  obtain ⟨hlt, hk⟩ := Hierarchy.mem_indexed.1 hi
  refine he.sound_named.orderly.mem_walkAll_iff.2 fun hdetached => ?_
  rw [he.sound_named.orderly.attached hlt hdetached] at hk
  cases hk

section Named
variable (hl : d₄.hierarchy.walkAll = A ++ i :: B) (hi : i ∈ d₄.hierarchy.indexed)
  (hne : d₄.hierarchy.called .managed i ≠ "")
  (hfree : ∀ w ∈ A, w ∈ d₄.hierarchy.indexed →
    d₄.hierarchy.called .managed w = d₄.hierarchy.called .managed i →
      d₄.hierarchy.kind w = d₄.hierarchy.kind i)
include hl hi hne hfree

/-- An element takes the key of its managed name if this is not empty and none of another kind gets the
name before. -/
theorem takes_key : ∃ d, Anonymous B d ∧ B.forM (assignManagedName p.translator) d = .ok () d₄ ∧
    d.registry.Reaches .managed (d₄.hierarchy.called .managed i) ⟨i, d₄.hierarchy.kind i⟩ := by
  have hnames := he.names
  have hanonymous := he.anonymous_nested
  rw [← he.walkAll_named, hl] at hnames hanonymous
  obtain ⟨d, hsteps, ha, hrun⟩ := hanonymous.split hnames
  have hover := namedOver_of_forM hrun
  have hindexed : ∀ {w}, w ∈ d₄.hierarchy.indexed ↔ w ∈ d.hierarchy.indexed := fun {w} => by
    rw [Hierarchy.mem_indexed, hover.size, hover.kind, ← Hierarchy.mem_indexed]
  obtain ⟨_, d', hassign, hrest⟩ := bind_ok.1 hrun
  have hafter := namedOver_of_forM hrest
  have hnamed : d₄.hierarchy.called .managed i = d'.hierarchy.called .managed i := by
    rw [Hierarchy.called, hafter.others (List.nodup_cons.1 ha.nodup).1, Hierarchy.called]
  have hinsert := (insert_of_assign ha.sound (hindexed.1 hi) ha.renewable hassign).1 (hnamed ▸ hne)
  rw [← hnamed, ← hafter.kind] at hinsert
  refine ⟨d', ha.assign hassign, hrest, ?_⟩
  by_cases hdis : d.registry.Displaced .managed (d₄.hierarchy.called .managed i)
  · exact .inl (hdis.mono (Registry.log_subset_of_insert hinsert))
  refine Registry.reaches_of_insert (fun e hget => .inl ?_) hinsert
  -- What has the key has the name, and so it got it before.
  have hd := he.upkept_nested.steps hsteps
  have hmem := mem_indexed_of_points ha.sound.points hget
  have hout : e.id ∉ i :: B := fun hin =>
    (hd.filed hget).1 (Hierarchy.called_of_unnamed (ha.unnamed e.id hin hmem))
  have hcalled : d₄.hierarchy.called .managed e.id = d₄.hierarchy.called .managed i := by
    rw [Hierarchy.called, hover.others hout]
    exact ((hd.traced hget).resolve_right hdis).symm
  have hA : e.id ∈ A := by
    have hwalk := he.mem_walkAll_named (hindexed.2 hmem)
    rw [hl, List.mem_append] at hwalk
    exact hwalk.resolve_right hout
  rw [← (ha.sound.points hget).2.1, ← hover.kind]
  exact hfree e.id hA (hindexed.2 hmem) hcalled

/-- It has the key when all names are given if none of its kind gets the name after it. -/
theorem reaches_named (hlast : ∀ w ∈ B, w ∈ d₄.hierarchy.indexed →
    d₄.hierarchy.called .managed w = d₄.hierarchy.called .managed i →
      d₄.hierarchy.kind w ≠ d₄.hierarchy.kind i) :
    d₄.registry.Reaches .managed (d₄.hierarchy.called .managed i) ⟨i, d₄.hierarchy.kind i⟩ := by
  obtain ⟨d, ha, hrun, hreaches⟩ := he.takes_key hl hi hne hfree
  refine reaches_of_forM ha hreaches hrun fun w hw hindexed hcalled => ?_
  have hkind := hlast w hw hindexed hcalled
  exact ⟨hkind.symm, fun h : i = w => hkind (h ▸ rfl)⟩

/-- One that got the name before does not have the key any more. -/
theorem misses_named (hj : j ≠ i) (hB : j ∉ B)
    (hdis : ¬ d₄.registry.Displaced .managed (d₄.hierarchy.called .managed i)) :
    d₄.registry.Misses .managed (d₄.hierarchy.called .managed i) j := by
  obtain ⟨d, ha, hrun, hreaches⟩ := he.takes_key hl hi hne hfree
  have hsteps : ReflTransGen (Upkeep never [j]) d d₄ :=
    ha.upkeep (fun w hw _ hin => hB (List.mem_singleton.1 hin ▸ hw)) hrun
  refine misses_of_upkeep hsteps List.mem_cons_self (hreaches.misses (fun h => hdis ?_) hj.symm)
  exact h.mono (log_subset_of_upkeep hsteps)

end Named

/-- An entry of an element that is not nested stays, unless another element takes its name. -/
theorem held {x : Entry} (hx : d₄.registry.Reaches u name x) (hid : x.id ∉ nestedEnums d₄) :
    d₅.Held [] u name x := by
  refine (nestEnums_rounds (I := fun is d => d.Held is u name x) he.sound_named he.upkept_named
    (fun h _ => .inl hx) (fun i is d d' hm hheld hrun _ => ?_) he.nesting).2
  exact hm.held hrun hheld fun h => hid (h ▸ hm.pending List.mem_cons_self)

/-- An enum that is nested takes the key of its new managed name, unless this is empty or another
element has it. -/
theorem held_nested (hi : i ∈ nestedEnums d₄) (hne : d₅.hierarchy.called .managed i ≠ "") :
    d₅.Held [] .managed (d₅.hierarchy.called .managed i) ⟨i, .enum⟩ := by
  refine (nestEnums_rounds (I := fun is d => i ∉ is → d.hierarchy.called .managed i ≠ "" →
    d.Held is .managed (d.hierarchy.called .managed i) ⟨i, .enum⟩) he.sound_named he.upkept_named
    (fun h _ hnot => absurd hi hnot) (fun j is d d' hm hheld hrun _ hnot hne => ?_)
    he.nesting).2 List.not_mem_nil hne
  by_cases hij : i = j
  · subst hij
    exact hm.held_self hrun hne
  · have hmem : i ∈ d.hierarchy.indexed := hm.indexed.2 (Hierarchy.mem_indexed.2
      ⟨lt_size_of_mem_rootEnums he.sound_named i (mem_nestedEnums.1 hi).1,
        by rw [kind_of_mem_nestedEnums he.sound_named hi]; rfl⟩)
    rw [hm.called_others hrun hmem hij] at hne ⊢
    exact hm.held hrun (hheld (by simp [hij, hnot]) hne) hij

/-- A key that misses an element which is not nested goes on to. -/
theorem misses (hm : d₄.registry.Misses u key i) (hi : i ∉ nestedEnums d₄) :
    d₅.registry.Misses u key i := by
  refine (nestEnums_rounds (I := fun _ d => d.registry.Misses u key i) he.sound_named
    he.upkept_named (fun _ _ => hm) (fun j is d d' hmid hmiss hrun _ => ?_)
    he.nesting).2
  have hji : j ∉ [i] := fun h =>
    hi (List.mem_singleton.1 h ▸ hmid.pending List.mem_cons_self)
  have hsteps : ReflTransGen (Upkeep (fun _ _ _ => True) [i]) _ d' := upkeep_of_rename hmid.sound
    hmid.enum hmid.attached hrun hmid.upkept.filed hji fun _ => trivial
  exact misses_of_upkeep hsteps List.mem_cons_self fun e hget => hmiss (within_withoutNames hget)

end Enclosed

end BindingTree

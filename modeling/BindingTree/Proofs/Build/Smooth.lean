import BindingTree.Build.Basic
import BindingTree.Proofs.Build.Listings
import BindingTree.Proofs.Build.Nesting
import BindingTree.Proofs.Naming.Translation

/-! Runs and their faults. Of each operation it is said once which fault it can end in and from which
draft, and that it reports nothing to be moved twice; a run of several operations is then smooth as
far as each of them is smooth where the run comes to it. Base types and markers are never at fault, and
neither is the planning of moves; managed names are only if the translator finds a fault. -/

namespace BindingTree

/-- Whether nothing has been reported to be moved twice. -/
def Registry.Unmoved (r : Registry) : Prop := ∀ n ∈ r.log, n.kind ≠ .alreadyMoved

theorem Registry.Unmoved.notice {r : Registry} {n : Notice} (hu : r.Unmoved)
    (hn : n.kind ≠ .alreadyMoved) : (r.notice n).Unmoved := by
  intro m hm
  rcases List.mem_append.1 hm with hm | hm
  · exact hu m hm
  · exact List.mem_singleton.1 hm ▸ hn

theorem Registry.Unmoved.insert {r r' : Registry} {t : Table} {key : String} {entry : Entry}
    (hu : r.Unmoved) (hr : Registry.insert t key entry r = .ok () r') : r'.Unmoved := by
  obtain ⟨-, ⟨-, rfl⟩ | ⟨existing, -, -, ⟨-, rfl⟩ | ⟨-, rfl⟩⟩⟩ := Registry.insert_cases hr
  · exact hu
  · exact hu
  · refine Registry.Unmoved.notice (r := ⟨_, r.log⟩) hu ?_
    rw [Notice.kind]
    decide

namespace Build

open Naming (Translator)

variable {α β ι : Type} {may : ElementFault → Draft → Prop} {d d' : Draft} {m : Build α}
  {f : α → Build β} {failure : Failure}

/-- A run from a draft that ends in no fault but those that may be where it ends, and that reports
nothing to be moved twice. -/
structure Smooth (may : ElementFault → Draft → Prop) (m : Build α) (d : Draft) : Prop where
  faults : ∀ {fault : ElementFault} {d' : Draft},
    m d = .error (.invalidElement fault) d' → may fault d'
  unmoved : d.registry.Unmoved → (ending (m d)).registry.Unmoved

/-! ### Parts and the whole -/

theorem Smooth.mono {may' : ElementFault → Draft → Prop} (hm : Smooth may m d)
    (hmay : ∀ fault d, may fault d → may' fault d) : Smooth may' m d :=
  ⟨fun he => hmay _ _ (hm.faults he), hm.unmoved⟩

theorem smooth_of_ok {a : α} (hd : m d = .ok a d')
    (hu : d.registry.Unmoved → d'.registry.Unmoved) : Smooth may m d where
  faults he := by cases hd.symm.trans he
  unmoved hr := by
    rw [hd]
    exact hu hr

theorem smooth_of_error (hd : m d = .error failure d)
    (hmay : ∀ fault, failure = .invalidElement fault → may fault d) : Smooth may m d where
  faults he := by
    cases hd.symm.trans he
    exact hmay _ rfl
  unmoved hr := by
    rw [hd]
    exact hr

theorem smooth_bind (hm : Smooth may m d)
    (hf : ∀ a d₁, m d = .ok a d₁ → Smooth may (f a) d₁) : Smooth may (m >>= f) d where
  faults he := by
    obtain hfirst | ⟨a, d₁, hok, hrest⟩ := bind_error.1 he
    · exact hm.faults hfirst
    · exact (hf a d₁ hok).faults hrest
  unmoved hr := by
    have hfirst := hm.unmoved hr
    rw [bind_run]
    cases hd : m d with
    | ok a d₁ =>
      rw [hd] at hfirst
      exact (hf a d₁ hd).unmoved hfirst
    | error failure d₁ =>
      rw [hd] at hfirst
      exact hfirst

/-- A loop: what holds with the whole list ahead and is handed on by each round makes every round
smooth. -/
theorem smooth_forM {g : ι → Build Unit} {I : List ι → Draft → Prop} {l : List ι}
    (round : ∀ i is d, I (i :: is) d → Smooth may (g i) d)
    (step : ∀ i is d d', I (i :: is) d → g i d = .ok () d' → I is d') (hI : I l d) :
    Smooth may (l.forM g) d := by
  induction l generalizing d with
  | nil => exact smooth_of_ok rfl id
  | cons i is ih =>
    exact smooth_bind (round i is d hI) fun _ d₁ hi => ih (step i is d d₁ hI hi)

theorem smooth_forM_always {g : ι → Build Unit} {l : List ι} (hg : ∀ i d, Smooth may (g i) d) :
    Smooth may (l.forM g) d :=
  smooth_forM (I := fun _ _ => True) (fun i _ d _ => hg i d) (fun _ _ _ _ _ _ => trivial) trivial

/-! ### Single operations -/

theorem smooth_pure {a : α} : Smooth may (pure a : Build α) d := smooth_of_ok rfl id

theorem smooth_hierarchy : Smooth may hierarchy d := smooth_of_ok rfl id

theorem smooth_index : Smooth may index d := smooth_of_ok rfl id

theorem smooth_element {i : ElementId} : Smooth may (element i) d := smooth_of_ok rfl id

theorem smooth_edit {g : Hierarchy → Hierarchy} : Smooth may (edit g) d := smooth_of_ok rfl id

theorem smooth_editElement {i : ElementId} {g : Element → Element} :
    Smooth may (editElement i g) d := smooth_edit

theorem smooth_make {e : Element} : Smooth may (make e) d := smooth_of_ok rfl id

theorem smooth_notice {n : Notice} (hn : n.kind ≠ .alreadyMoved) : Smooth may (notice n) d :=
  smooth_of_ok rfl fun hu => hu.notice hn

theorem smooth_fail (hmay : ∀ fault, failure = .invalidElement fault → may fault d) :
    Smooth may (fail failure : Build α) d := smooth_of_error rfl hmay

theorem smooth_ofExcept {x : Except Failure α}
    (hmay : ∀ fault, x = .error (.invalidElement fault) → may fault d) : Smooth may (ofExcept x) d := by
  cases x with
  | ok a => exact smooth_pure
  | error failure => exact smooth_fail fun fault he => hmay fault (he ▸ rfl)

theorem smooth_lookup {name : String} {hint : Option Kind} {e : Element} :
    Smooth may (lookup name hint e) d := by
  have hrun := lookup_run name hint e d
  cases hl : d.registry.index.lookup? name hint with
  | some entry =>
    rw [hl] at hrun
    exact smooth_of_ok hrun id
  | none =>
    rw [hl] at hrun
    exact smooth_of_error hrun fun _ he => by cases he

theorem smooth_addMember {p c : ElementId}
    (hmay : p = c ∨ c ∈ d.hierarchy.ancestors p →
      may (.cycle (d.hierarchy.fullName c) (d.hierarchy.fullName p)) d) :
    Smooth may (addMember p c) d := by
  by_cases hcycle : p = c ∨ c ∈ d.hierarchy.ancestors p
  · have hrun : addMember p c d = .error (.invalidElement
        (.cycle (d.hierarchy.fullName c) (d.hierarchy.fullName p))) d := by
      unfold addMember
      rw [bind_run, hierarchy_run]
      dsimp only
      rw [Hierarchy.addMember, if_pos hcycle]
      rfl
    refine smooth_of_error hrun fun fault he => ?_
    cases he
    exact hmay hcycle
  · rw [not_or] at hcycle
    have hrun : addMember p c d = .ok () { d with hierarchy := d.hierarchy.move p c } :=
      addMember_ok.2 ⟨hcycle.1, hcycle.2, rfl⟩
    exact smooth_of_ok hrun id

theorem smooth_insert {t : Table} {key : String} {entry : Entry}
    (hmay : key = "" → may (.emptyKey entry.kind entry.id) d) :
    Smooth may (onRegistry (Registry.insert t key entry)) d := by
  cases hr : Registry.insert t key entry d.registry with
  | ok u r => exact smooth_of_ok (onRegistry_ok.2 ⟨r, hr, rfl⟩) fun hu => hu.insert hr
  | error failure r =>
    obtain rfl := Registry.eq_of_insert_error hr
    have hrun : onRegistry (Registry.insert t key entry) d = .error failure d := by
      unfold onRegistry
      rw [hr]
    refine smooth_of_error hrun fun fault he => ?_
    obtain ⟨hkey, hf⟩ | ⟨_, -, hf⟩ := Registry.insert_error hr
    · cases he.symm.trans hf
      exact hmay hkey
    · cases he.symm.trans hf

section Entering
variable {i : ElementId}
  (hmay : d.hierarchy.fullName i = "" → may (.emptyKey (d.hierarchy.kind i) i) d)

/-- An element under no managed name is not entered under it. -/
theorem smooth_addManaged_of {e : Element} :
    Smooth may (onRegistry (Registry.addManaged i e)) d := by
  unfold Registry.addManaged
  split
  · exact smooth_of_ok rfl id
  next hkey => exact smooth_insert fun h => absurd h hkey

theorem smooth_addManaged : Smooth may (addManaged i) d := by
  refine smooth_bind smooth_element fun e d₁ he => ?_
  obtain ⟨-, rfl⟩ := element_ok.1 he
  exact smooth_addManaged_of

include hmay

theorem smooth_addNative : Smooth may (addNative i) d := by
  refine smooth_bind smooth_element fun e d₁ he => ?_
  obtain ⟨rfl, rfl⟩ := element_ok.1 he
  exact smooth_insert hmay

theorem smooth_enter : Smooth may (enter i) d := by
  refine smooth_bind smooth_element fun e d₁ he => ?_
  obtain ⟨rfl, rfl⟩ := element_ok.1 he
  unfold Registry.add
  rw [onRegistry_bind]
  exact smooth_bind (smooth_insert hmay) fun _ _ _ => smooth_addManaged_of

end Entering

/-! ### Managed names, base types and markers -/

section Passes
variable {s : Settings} {t : Translator} {i : ElementId} {e : Element} {is : List ElementId}
  {accept : Kind → Bool}

section Names
variable (ht : ∀ fault, t.Fails (.invalidElement fault) → ∀ d, may fault d)
include ht

theorem smooth_assignManagedName : Smooth may (assignManagedName t i) d := by
  refine smooth_bind smooth_hierarchy fun h d₁ _ => smooth_bind (smooth_ofExcept fun fault he =>
    ht fault (fails_of_managedNameOf he) d₁) fun managed d₂ _ =>
      smooth_bind smooth_editElement fun _ d₃ _ => ?_
  split
  · exact smooth_addManaged
  · exact smooth_pure

theorem smooth_assignManagedNamesFrom : Smooth may (assignManagedNamesFrom t i) d :=
  smooth_bind smooth_hierarchy fun _ _ _ =>
    smooth_forM_always fun _ _ => smooth_assignManagedName ht

theorem smooth_assignManagedNames : Smooth may (assignManagedNames t) d :=
  smooth_bind smooth_hierarchy fun _ _ _ =>
    smooth_forM_always fun _ _ => smooth_assignManagedName ht

end Names

theorem smooth_findBases {found : List ElementId} {names : List String} :
    Smooth may (findBases i e found names) d := by
  induction names generalizing found d with
  | nil => exact smooth_pure
  | cons name names ih => exact smooth_bind smooth_lookup fun _ _ _ => ih

theorem smooth_defaultBase : Smooth may (defaultBase s i e) d := by
  unfold defaultBase
  split
  · exact smooth_bind smooth_lookup fun _ _ _ => smooth_pure
  · exact smooth_bind smooth_lookup fun _ _ _ => smooth_pure

theorem smooth_resolveBases : Smooth may (resolveBases s i) d := by
  refine smooth_bind smooth_element fun e d₁ _ => ?_
  split
  · exact smooth_pure
  · split
    · exact smooth_pure
    · refine smooth_bind smooth_findBases fun found d₂ _ => ?_
      split
      · exact smooth_bind smooth_defaultBase fun _ _ _ => smooth_editElement
      · exact smooth_bind smooth_pure fun _ _ _ => smooth_editElement

theorem smooth_resolveBaseTypes : Smooth may (resolveBaseTypes s) d :=
  smooth_bind smooth_hierarchy fun _ _ _ =>
    smooth_bind (smooth_forM_always fun _ _ => smooth_resolveBases) fun _ _ _ =>
      smooth_bind smooth_hierarchy fun _ _ _ => smooth_edit

theorem smooth_mark : Smooth may mark d := smooth_edit

/-! ### Plans -/

theorem smooth_newOwner? : Smooth may (newOwner? accept i) d := by
  refine smooth_bind smooth_element fun e d₁ _ => ?_
  split
  · exact smooth_pure
  · refine smooth_bind smooth_lookup fun owner d₂ _ => smooth_bind smooth_element fun e d₃ _ => ?_
    split
    · exact smooth_pure
    · exact smooth_pure

/-- Where no element is planned for twice, nothing is reported. -/
theorem smooth_planMoves {m : Moves} (hn : is.Nodup) (hnew : ∀ i ∈ is, m.get? i = none) :
    Smooth may (planMoves accept m is) d := by
  induction is generalizing m d with
  | nil => exact smooth_pure
  | cons i is ih =>
    rw [List.nodup_cons] at hn
    have hrest : ∀ j ∈ is, m.get? j = none := fun j hj => hnew j (List.mem_cons_of_mem _ hj)
    refine smooth_bind smooth_newOwner? fun o d₁ _ => ?_
    cases o with
    | none => exact ih hn.2 hrest
    | some owner =>
      have hnone : m.target? i = none := hnew i List.mem_cons_self
      have hplan : planMove m i owner d₁ = .ok (m.plan i owner) d₁ := by
        simp only [planMove, hnone]
        rfl
      refine smooth_bind (smooth_of_ok hplan id) fun m' d₂ hm => ?_
      cases hplan.symm.trans hm
      refine ih hn.2 fun j hj => ?_
      rw [Moves.plan, KeyedList.get?_put, if_neg fun h : j = i => hn.1 (h ▸ hj)]
      exact hrest j hj

/-- Planned moves that can be made are made without fault. -/
theorem smooth_apply {m : Moves} {h : Hierarchy}
    (hm : Moves.makeAll m.entries d.hierarchy = .ok () h) :
    Smooth may (onHierarchy m.apply) d :=
  smooth_of_ok (onHierarchy_ok.2 ⟨h, Moves.apply_ok.2 ⟨hm, rfl⟩, rfl⟩) id

end Passes

end Build

end BindingTree

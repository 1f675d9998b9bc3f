import BindingTree.Proofs.Build.ManagedNames
import BindingTree.Proofs.Build.Nesting

/-! Nesting enums. An enum that was moved gets a new full name, and it and everything below it get
new managed names; what is below it keeps its full native name. Nothing else changes, and as the
new owner of an enum is never an enum itself, no owner is renamed after what it owns. -/

namespace BindingTree.Build

open Naming

variable {t : Translator} {d d' : Draft} {h h' : Hierarchy} {i j p : ElementId}
  {is : List ElementId}

/-! ### One enum -/

/-- The hierarchy with an enum under the full name of its place. -/
def fullyNamed (h : Hierarchy) (i : ElementId) : Hierarchy :=
  h.modify i fun e => { e with fullName := h.composeFullName (h.owner i) e.name }

theorem samePlaces_fullyNamed : h.SamePlaces (fullyNamed h i) := .modify fun _ => rfl

theorem sameManaged_fullyNamed : h.SameManaged (fullyNamed h i) :=
  .modify (fun _ => rfl) fun _ => rfl

/-- Whether all entries of one index are entries of another. -/
def Within (ix ix' : Index) : Prop :=
  ∀ ⦃u : Table⦄ ⦃k : String⦄ ⦃e : Entry⦄, (ix.table u).get? k = some e →
    (ix'.table u).get? k = some e

theorem Within.remove {u : Table} {key : String} {entry : Entry} {ix : Index} :
    Within (ix.remove u key entry).1 ix := fun _ _ _ => Index.get?_of_get?_remove

theorem Within.trans {a b c : Index} (hab : Within a b) (hbc : Within b c) : Within a c :=
  fun _ _ _ he => hbc (hab he)

theorem Within.points {ix ix' : Index} (hw : Within ix ix') (hp : ix'.PointsInto h) :
    ix.PointsInto h := fun _ _ _ he => hp (hw he)

/-- A registry without the entries of an element under its names. -/
def withoutNames (r : Registry) (i : ElementId) (e : Element) : Registry :=
  let r := (r.remove .native e.fullName i e).1
  match e.fullManagedName with
  | some managed => (r.remove .managed managed i e).1
  | none => r

theorem renameEnum_run : renameEnum t i d = (do
      addNative i
      assignManagedNamesFrom t i)
        ⟨fullyNamed d.hierarchy i, withoutNames d.registry i (d.hierarchy.element i)⟩ := by
  unfold withoutNames
  have hrun : renameEnum t i d = (do
      match (d.hierarchy.element i).fullManagedName with
      | some managed => remove .managed managed i
      | none => pure ()
      let h ← hierarchy
      editElement i fun e => { e with fullName := h.composeFullName (h.owner i) e.name }
      addNative i
      assignManagedNamesFrom t i)
        { d with registry :=
          (d.registry.remove .native (d.hierarchy.fullName i) i (d.hierarchy.element i)).1 } := rfl
  rw [hrun]
  cases (d.hierarchy.element i).fullManagedName <;> rfl

theorem within_withoutNames {r : Registry} {x : Element} :
    Within (withoutNames r i x).index r.index := by
  unfold withoutNames
  cases x.fullManagedName with
  | some managed => exact Within.remove.trans Within.remove
  | none => exact Within.remove

theorem renameEnum_ok (hd : renameEnum t i d = .ok () d') :
    ∃ r, Registry.addNative i ((fullyNamed d.hierarchy i).element i)
        (withoutNames d.registry i (d.hierarchy.element i)) = .ok () r ∧
      ((fullyNamed d.hierarchy i).walk i).forM (assignManagedName t) ⟨fullyNamed d.hierarchy i, r⟩
        = .ok () d' := by
  rw [renameEnum_run] at hd
  obtain ⟨_, _, hadd, hd⟩ := bind_ok.1 hd
  obtain ⟨r, hr, rfl⟩ := addNative_ok.1 hadd
  obtain ⟨_, _, hh, hnames⟩ := bind_ok.1 hd
  obtain ⟨rfl, rfl⟩ := hierarchy_ok.1 hh
  exact ⟨r, hr, hnames⟩

theorem sound_of_rename (hs : d.Sound) (hi : d.hierarchy.owner i ≠ .detached)
    (hk : d.hierarchy.kind i = .enum) (hd : renameEnum t i d = .ok () d') : d'.Sound := by
  obtain ⟨r', hadd, hnames⟩ := renameEnum_ok hd
  have hlt : i < d.hierarchy.size := Hierarchy.lt_size_of_owner_ne hi
  have hsame := samePlaces_fullyNamed (h := d.hierarchy) (i := i)
  have ho : (fullyNamed d.hierarchy i).Orderly := hsame.orderly hs.orderly
  have hpoints := (within_withoutNames (x := d.hierarchy.element i) (i := i)).points
    (hs.same hsame).points
  have hkind : ((fullyNamed d.hierarchy i).element i).kind = .enum := by
    rw [← Hierarchy.kind, hsame.kind, hk]
  have hs₁ : (⟨fullyNamed d.hierarchy i, r'⟩ : Draft).Sound :=
    ⟨ho, hpoints.addNative (hsame.size ▸ hlt) rfl (.inl (by rw [Element.isType, hkind]; rfl)) hadd⟩
  exact sound_of_forM_assign hs₁ (fun _ => ho.lt_size_of_mem_walk (hsame.size ▸ hlt)) hnames

/-! ### A list of enums -/

/-- What renaming the enums of a list does to the hierarchy. -/
structure RenamedOver (is : List ElementId) (h h' : Hierarchy) : Prop extends h.SamePlaces h' where
  name : ∀ j, (h'.element j).name = (h.element j).name
  isBound : ∀ j, (h'.element j).isBound = (h.element j).isBound
  given : ∀ j, (h'.element j).givenName = (h.element j).givenName
  kept : ∀ {j : ElementId}, j ∉ is → h'.fullName j = h.fullName j
  renamed : ∀ {j : ElementId}, j ∈ is →
    h'.fullName j = h.composeFullName (h.owner j) (h.element j).name

theorem renamedOver_of_rename (hi : i < d.hierarchy.size) (hd : renameEnum t i d = .ok () d') :
    RenamedOver [i] d.hierarchy d'.hierarchy := by
  obtain ⟨r', -, hnames⟩ := renameEnum_ok hd
  have hnamed := namedOver_of_forM hnames
  dsimp only at hnamed
  refine ⟨samePlaces_fullyNamed.trans hnamed.toSamePlaces, ?_, ?_, ?_, ?_, ?_⟩
  · intro j
    rw [hnamed.name]
    exact Hierarchy.congr_element_modify Element.name fun _ => rfl
  · intro j
    rw [hnamed.isBound]
    exact Hierarchy.congr_element_modify Element.isBound fun _ => rfl
  · intro j
    rw [hnamed.given]
    exact Hierarchy.congr_element_modify Element.givenName fun _ => rfl
  · intro j hj
    rw [hnamed.fullName, Hierarchy.fullName, fullyNamed,
      Hierarchy.element_modify_of_ne (by simpa using hj), Hierarchy.fullName]
  · intro j hj
    obtain rfl := List.mem_singleton.1 hj
    rw [hnamed.fullName, Hierarchy.fullName, fullyNamed, Hierarchy.element_modify_self hi]

theorem RenamedOver.cons {h'' : Hierarchy} (h₁ : RenamedOver [i] h h')
    (h₂ : RenamedOver is h' h'') (hi : i ∉ is)
    (hup : ∀ j ∈ is, ∀ p, h.owner j = .element p → p ≠ i) : RenamedOver (i :: is) h h'' where
  toSamePlaces := h₁.toSamePlaces.trans h₂.toSamePlaces
  name j := (h₂.name j).trans (h₁.name j)
  isBound j := (h₂.isBound j).trans (h₁.isBound j)
  given j := (h₂.given j).trans (h₁.given j)
  kept {j} hj := by
    rw [List.mem_cons, not_or] at hj
    rw [h₂.kept hj.2, h₁.kept (by simpa using hj.1)]
  renamed {j} hj := by
    rcases List.mem_cons.1 hj with rfl | hj
    · rw [h₂.kept hi, h₁.renamed List.mem_cons_self]
    · rw [h₂.renamed hj, h₁.owner, h₁.name]
      cases ho : h.owner j with
      | element p =>
        have hp : h'.fullName p = h.fullName p := h₁.kept (by simpa using hup j hj p ho)
        simp only [Hierarchy.composeFullName, hp]
      | root => rfl
      | detached => rfl

/-- Enums of a list can be renamed one after the other if no owner of one is in the list. -/
structure Renamable (is : List ElementId) (h : Hierarchy) : Prop where
  nodup : is.Nodup
  enum : ∀ i ∈ is, h.kind i = .enum
  owned : ∀ i ∈ is, ∃ p, h.owner i = .element p ∧ p ∉ is

theorem Renamable.tail (hr : Renamable (i :: is) h) (hs : h.SamePlaces h') : Renamable is h' where
  nodup := (List.nodup_cons.1 hr.nodup).2
  enum j hj := by
    rw [hs.kind]
    exact hr.enum j (List.mem_cons_of_mem _ hj)
  owned j hj := by
    obtain ⟨p, hp, hnot⟩ := hr.owned j (List.mem_cons_of_mem _ hj)
    exact ⟨p, by rw [hs.owner, hp], fun hmem => hnot (List.mem_cons_of_mem _ hmem)⟩

theorem Renamable.attached (hr : Renamable is h) (hi : i ∈ is) : h.owner i ≠ .detached := by
  obtain ⟨p, hp, -⟩ := hr.owned i hi
  simp [hp]

theorem sound_of_forM_rename (hs : d.Sound) (hr : Renamable is d.hierarchy)
    (hd : is.forM (renameEnum t) d = .ok () d') : d'.Sound := by
  induction is generalizing d with
  | nil =>
    obtain ⟨-, rfl⟩ := pure_ok.1 hd
    exact hs
  | cons i is ih =>
    obtain ⟨_, d₁, hi, his⟩ := bind_ok.1 hd
    have hatt := hr.attached List.mem_cons_self
    have hrenamed := renamedOver_of_rename (Hierarchy.lt_size_of_owner_ne hatt) hi
    exact ih (sound_of_rename hs hatt (hr.enum i List.mem_cons_self) hi)
      (hr.tail hrenamed.toSamePlaces) his

theorem renamedOver_of_forM (hr : Renamable is d.hierarchy)
    (hd : is.forM (renameEnum t) d = .ok () d') : RenamedOver is d.hierarchy d'.hierarchy := by
  induction is generalizing d with
  | nil =>
    obtain ⟨-, rfl⟩ := pure_ok.1 hd
    exact ⟨.refl _, fun _ => rfl, fun _ => rfl, fun _ => rfl, fun _ => rfl, by simp⟩
  | cons i is ih =>
    obtain ⟨_, d₁, hi, his⟩ := bind_ok.1 hd
    have hatt := hr.attached List.mem_cons_self
    have hrenamed := renamedOver_of_rename (Hierarchy.lt_size_of_owner_ne hatt) hi
    refine hrenamed.cons (ih (hr.tail hrenamed.toSamePlaces) his) (List.nodup_cons.1 hr.nodup).1 ?_
    intro j hj p hp
    obtain ⟨q, hq, hnot⟩ := hr.owned j (List.mem_cons_of_mem _ hj)
    cases Owner.element.inj (hp.symm.trans hq)
    rintro rfl
    exact hnot List.mem_cons_self

/-! ### Managed names -/

theorem mem_walk_fullyNamed (ho : h.Orderly) (hi : i < h.size) :
    j ∈ (fullyNamed h i).walk i ↔ h.Covers i j := by
  rw [samePlaces_fullyNamed.walk]
  exact ho.mem_walk hi

/-- A renamed enum and everything below it go on from their owners. -/
theorem managed_of_covers_renamed (ho : d.hierarchy.Orderly) (hi : i < d.hierarchy.size)
    (hd : renameEnum t i d = .ok () d') (hj : d.hierarchy.Covers i j) : d'.hierarchy.Managed j := by
  obtain ⟨r', -, hnames⟩ := renameEnum_ok hd
  have hsame := sameManaged_fullyNamed (h := d.hierarchy) (i := i)
  have ho₁ : (fullyNamed d.hierarchy i).Orderly := hsame.orderly ho
  exact managed_of_forM (d := ⟨fullyNamed d.hierarchy i, r'⟩) ho₁
    (fun _ => ho₁.lt_size_of_mem_walk (hsame.size ▸ hi)) (ho₁.pairwise_walk i) hnames j
      ((mem_walk_fullyNamed ho hi).2 hj)

/-- What is not below a renamed enum goes on from its owner as before. -/
theorem managed_of_not_covers_renamed (ho : d.hierarchy.Orderly) (hi : i < d.hierarchy.size)
    (hd : renameEnum t i d = .ok () d') (hj : ¬ d.hierarchy.Covers i j)
    (hm : d.hierarchy.Managed j) : d'.hierarchy.Managed j := by
  obtain ⟨r', -, hnames⟩ := renameEnum_ok hd
  have hsame := sameManaged_fullyNamed (h := d.hierarchy) (i := i)
  have hnamed := namedOver_of_forM hnames
  have hkept : ∀ k, ¬ d.hierarchy.Covers i k →
      (d'.hierarchy.element k).managed = (d.hierarchy.element k).managed := by
    intro k hk
    rw [hnamed.others fun hmem => hk ((mem_walk_fullyNamed ho hi).1 hmem)]
    exact hsame.managed k
  refine hm.congr (by rw [hnamed.owner, hsame.owner]) (hkept j hj) fun q hq => hkept q ?_
  exact fun hqi => hj (hqi.trans (.of_owner hq))

theorem managed_of_forM_rename (ho : d.hierarchy.Orderly)
    (hr : Renamable is d.hierarchy) (hd : is.forM (renameEnum t) d = .ok () d')
    (hm : ∀ j, d.hierarchy.owner j ≠ .detached → j ∉ is → d.hierarchy.Managed j) :
    ∀ j, d'.hierarchy.owner j ≠ .detached → d'.hierarchy.Managed j := by
  induction is generalizing d with
  | nil =>
    obtain ⟨-, rfl⟩ := pure_ok.1 hd
    exact fun j hj => hm j hj List.not_mem_nil
  | cons i is ih =>
    obtain ⟨_, d₁, hrename, hrest⟩ := bind_ok.1 hd
    have hlt := Hierarchy.lt_size_of_owner_ne (hr.attached List.mem_cons_self)
    have hrenamed := renamedOver_of_rename hlt hrename
    refine ih (hrenamed.orderly ho) (hr.tail hrenamed.toSamePlaces) hrest ?_
    intro j hj hjis
    rw [hrenamed.owner] at hj
    by_cases hij : d.hierarchy.Covers i j
    · exact managed_of_covers_renamed ho hlt hrename hij
    · refine managed_of_not_covers_renamed ho hlt hrename hij (hm j hj ?_)
      have hji : j ≠ i := fun hji => hij (.inl hji)
      simp [hji, hjis]

/-! ### The pass -/

/-- What nesting enums does to the hierarchy of a draft. -/
structure EnumsNested (d : Draft) (h' : Hierarchy) : Prop where
  orderly : h'.Orderly
  size : h'.size = d.hierarchy.size
  enums : h'.enums = d.hierarchy.enums
  kind : h'.kind = d.hierarchy.kind
  name : ∀ i, (h'.element i).name = (d.hierarchy.element i).name
  isBound : ∀ i, (h'.element i).isBound = (d.hierarchy.element i).isBound
  given : ∀ i, (h'.element i).givenName = (d.hierarchy.element i).givenName
  moved : ∀ {i p : ElementId}, i ∈ d.hierarchy.rootEnums → nest? ownsEnums d i = some p →
    h'.owner i = .element p ∧ h'.Composed i
  stayed : ∀ {i : ElementId}, (i ∈ d.hierarchy.rootEnums → nest? ownsEnums d i = none) →
    h'.owner i = d.hierarchy.owner i ∧ h'.fullName i = d.hierarchy.fullName i
  managed : (∀ i, d.hierarchy.owner i ≠ .detached → d.hierarchy.Managed i) →
    ∀ i, h'.owner i ≠ .detached → h'.Managed i

theorem EnumsNested.stayed_or_moved (he : EnumsNested d h') (i : ElementId) :
    (h'.owner i = d.hierarchy.owner i ∧ h'.fullName i = d.hierarchy.fullName i) ∨
      ∃ p, i ∈ d.hierarchy.rootEnums ∧ nest? ownsEnums d i = some p := by
  by_cases hstay : i ∈ d.hierarchy.rootEnums → nest? ownsEnums d i = none
  · exact .inl (he.stayed hstay)
  · rw [Classical.not_imp] at hstay
    obtain ⟨p, hp⟩ := Option.ne_none_iff_exists'.1 hstay.2
    exact .inr ⟨p, hstay.1, hp⟩

section Pass
variable (hs : d.Sound)
  (hm : Moves.makeAll (nestMoves ownsEnums d d.hierarchy.rootEnums) d.hierarchy = .ok () h')
include hs

theorem lt_size_of_mem_rootEnums : ∀ i ∈ d.hierarchy.rootEnums, i < d.hierarchy.size :=
  fun _ hi => Hierarchy.lt_size_of_owner_ne (by simp [(hs.orderly.mem_rootEnums.1 hi).2])

theorem nodup_rootEnums : d.hierarchy.rootEnums.Nodup := hs.orderly.nodup_enums.filter _

/-- Enums are nested under namespaces, classes and interfaces, so never under each other. -/
theorem not_mem_rootEnums_of_nest? (hp : nest? ownsEnums d i = some p) :
    p ∉ d.hierarchy.rootEnums := by
  intro hmem
  obtain ⟨-, -, -, -, -, -, ha⟩ := nest?_eq_some.1 hp
  rw [(hs.orderly.mem_rootEnums.1 hmem).1] at ha
  exact absurd ha (by decide)

include hm

theorem orderly_of_enumMoves : h'.Orderly := by
  refine orderly_of_nestMoves (lt_size_of_mem_rootEnums hs) hm hs ?_
  intro i hi p ha _
  rw [(hs.orderly.mem_rootEnums.1 hi).1]
  revert ha
  cases d.hierarchy.kind p <;> decide

theorem renamable_of_enumMoves :
    Renamable ((nestMoves ownsEnums d d.hierarchy.rootEnums).map Prod.fst) h' := by
  have hn := nodup_rootEnums hs
  refine ⟨nodup_keys_nestMoves hn, ?_, ?_⟩
  · intro i hi
    rw [(Moves.sameElements_makeAll hm).kind]
    exact (hs.orderly.mem_rootEnums.1 (mem_keys_nestMoves.1 hi).1).1
  · intro i hi
    obtain ⟨hroot, hsome⟩ := mem_keys_nestMoves.1 hi
    obtain ⟨p, hp⟩ := Option.isSome_iff_exists.1 hsome
    refine ⟨p, owner_of_moved (lt_size_of_mem_rootEnums hs) hm hn hroot hp, fun hmem => ?_⟩
    exact not_mem_rootEnums_of_nest? hs hp (mem_keys_nestMoves.1 hmem).1

/-- Whatever is not moved keeps its owner and is managed as before. -/
theorem managed_of_enumMoves
    (hmanaged : ∀ i, d.hierarchy.owner i ≠ .detached → d.hierarchy.Managed i) :
    ∀ j, h'.owner j ≠ .detached →
      j ∉ (nestMoves ownsEnums d d.hierarchy.rootEnums).map Prod.fst → h'.Managed j := by
  intro j hj hnot
  have hstay : j ∈ d.hierarchy.rootEnums → nest? ownsEnums d j = none := by
    intro hroot
    rw [mem_keys_nestMoves] at hnot
    simpa [hroot] using hnot
  have howner := owner_of_stayed (lt_size_of_mem_rootEnums hs) hm (nodup_rootEnums hs) hstay
  have hsame := Moves.sameElements_makeAll hm
  refine (hmanaged j (howner ▸ hj)).congr howner (by rw [hsame.element]) fun p _ => ?_
  rw [hsame.element]

theorem enumsNested_of_forM {r : Registry} (hd : ((nestMoves ownsEnums d d.hierarchy.rootEnums).map
      Prod.fst).forM (renameEnum t) ⟨h', r⟩ = .ok () d') :
    EnumsNested d d'.hierarchy := by
  have ho := orderly_of_enumMoves hs hm
  have hr := renamable_of_enumMoves hs hm
  have hlt := lt_size_of_mem_rootEnums hs
  have hsame := Moves.sameElements_makeAll hm
  have hrenamed := renamedOver_of_forM (d := ⟨h', r⟩) hr hd
  refine ⟨hrenamed.orderly ho, hrenamed.size.trans hsame.size, hrenamed.enums.trans hsame.enums,
    hrenamed.kind.trans hsame.kind, ?_, ?_, ?_, ?_, ?_, ?_⟩
  · intro i
    rw [hrenamed.name, hsame.element]
  · intro i
    rw [hrenamed.isBound, hsame.element]
  · intro i
    rw [hrenamed.given, hsame.element]
  · intro i p hi hp
    have howner : h'.owner i = .element p := owner_of_moved hlt hm (nodup_rootEnums hs) hi hp
    have hrow : d'.hierarchy.owner i = .element p := hrenamed.owner ▸ howner
    refine ⟨hrow, ?_⟩
    have hpkept : p ∉ (nestMoves ownsEnums d d.hierarchy.rootEnums).map Prod.fst :=
      fun hmem => not_mem_rootEnums_of_nest? hs hp (mem_keys_nestMoves.1 hmem).1
    rw [Hierarchy.composed_iff_of_owner hrow, hrenamed.renamed (mem_keys_of_nest? hi hp),
      hrenamed.kept hpkept, hrenamed.name]
    dsimp only
    rw [howner]
    rfl
  · intro i hstay
    rw [hrenamed.owner, hrenamed.kept (not_mem_keys_nestMoves hstay)]
    exact ⟨owner_of_stayed hlt hm (nodup_rootEnums hs) hstay, by rw [hsame.fullName]⟩
  · intro hmanaged
    exact managed_of_forM_rename (d := ⟨h', r⟩) ho hr hd (managed_of_enumMoves hs hm hmanaged)

end Pass

/-- The pass over enums makes the planned moves and renames what was moved. -/
theorem nestEnums_moves (hs : d.Sound) (hd : nestEnums t d = .ok () d') :
    (∀ i ∈ d.hierarchy.rootEnums, Resolves d i) ∧ ∃ h,
      Moves.makeAll (nestMoves ownsEnums d d.hierarchy.rootEnums) d.hierarchy = .ok () h ∧
        ((nestMoves ownsEnums d d.hierarchy.rootEnums).map Prod.fst).forM (renameEnum t)
          { d with hierarchy := h } = .ok () d' := by
  obtain ⟨_, _, hh, hplans⟩ := bind_ok.1 hd
  obtain ⟨rfl, rfl⟩ := hierarchy_ok.1 hh
  obtain ⟨m, d₁, hplan, hmoves⟩ := bind_ok.1 hplans
  obtain ⟨rfl, hres, hentries⟩ := planMoves_ok (nodup_rootEnums hs) (fun _ _ => rfl) hplan
  obtain ⟨keys, d₂, hwork, hrename⟩ := bind_ok.1 hmoves
  obtain ⟨h₁, happly, rfl⟩ := onHierarchy_ok.1 hwork
  obtain ⟨hmade, rfl⟩ := Moves.apply_ok.1 happly
  change m.entries = nestMoves ownsEnums d₁ d₁.hierarchy.rootEnums at hentries
  rw [hentries] at hmade
  rw [KeyedList.keys, hentries] at hrename
  exact ⟨hres, h₁, hmade, hrename⟩

/-- The pass over enums nests each enum at the top by its qualifier. -/
theorem nestEnums_ok (hs : d.Sound) (hd : nestEnums t d = .ok () d') :
    (∀ i ∈ d.hierarchy.rootEnums, Resolves d i) ∧ d'.Sound ∧ EnumsNested d d'.hierarchy := by
  obtain ⟨hres, h₁, hmade, hrename⟩ := nestEnums_moves hs hd
  have hsame := Moves.sameElements_makeAll hmade
  have hs₁ : ({ d with hierarchy := h₁ } : Draft).Sound :=
    hs.extend (orderly_of_enumMoves hs hmade) (Nat.le_of_eq hsame.size.symm)
      fun _ _ => by rw [hsame.kind]
  exact ⟨hres, sound_of_forM_rename hs₁ (renamable_of_enumMoves hs hmade) hrename,
    enumsNested_of_forM hs hmade hrename⟩

end BindingTree.Build

import BindingTree.Proofs.Build.Filed
import BindingTree.Proofs.Build.Listings
import BindingTree.Proofs.Index.Clashes

/-! How a build keeps its index up. Every pass that enters elements is a sequence of two kinds of
steps: an element is entered under its name, or elements are made and named while the index stays. A
name changes only where there was none, or where the table lacks the element. An element whose managed
name is empty is named like any other, but not entered. What is not of this form is the removal of an
enum that is about to be renamed, and that only takes entries away. So each entry stands under a name
of its element, or was put under its key in a clash that was noticed. -/

namespace BindingTree

open Build
open Naming (Translator)
open Relation (ReflTransGen)

/-- The name under which a table keeps an element. -/
def Hierarchy.called (h : Hierarchy) (u : Table) (i : ElementId) : String := u.nameOf (h.element i)

/-- The name of an element in a table, if it has been given one. -/
def Table.name? (u : Table) (e : Element) : Option String :=
  match u with
  | .native => some e.fullName
  | .managed => e.fullManagedName

theorem Table.nameOf_eq (u : Table) (e : Element) : u.nameOf e = (u.name? e).getD "" := by
  cases u <;> rfl

/-- Whether an element has been given a name in a table, if only an empty one. -/
def Hierarchy.Named (h : Hierarchy) (u : Table) (i : ElementId) : Prop := u.name? (h.element i) ≠ none

theorem Hierarchy.named_native {h : Hierarchy} {i : ElementId} : h.Named .native i := by
  simp [Named, Table.name?]

theorem Hierarchy.called_congr {h h' : Hierarchy} {u : Table} {i : ElementId}
    (hn : u.name? (h'.element i) = u.name? (h.element i)) : h'.called u i = h.called u i := by
  rw [called, called, Table.nameOf_eq, Table.nameOf_eq, hn]

theorem Hierarchy.called_of_unnamed {h : Hierarchy} {u : Table} {i : ElementId} (hn : ¬ h.Named u i) :
    h.called u i = "" := by
  rw [called, Table.nameOf_eq, Classical.not_not.1 hn, Option.getD_none]

theorem Hierarchy.named_of_called {h : Hierarchy} {u : Table} {i : ElementId}
    (hc : h.called u i ≠ "") : h.Named u i := fun hn => hc (called_of_unnamed (not_not_intro hn))

/-- Every entry stands under the name of its element, or was put under its key in a clash. -/
structure Draft.Upkept (d : Draft) : Prop where
  filed : d.Filed
  traced : d.registry.Traced d.hierarchy.called

variable {p : Plan} {rs : List Record} {s : Settings} {t : Translator} {heads : List Record.Head}
  {d d' d₁ d₂ d₃ d₄ d₅ d₆ : Draft} {r r' : Registry} {h' : Hierarchy} {i j q : ElementId}
  {u v : Table} {is : List ElementId} {may may' : Table → ElementId → String → Prop}

namespace Build

/-- An element that is none of some is entered into a table under its name. -/
structure Enters (is : List ElementId) (u : Table) (i : ElementId) (d d' : Draft) : Prop where
  sound : d.Sound
  mem : i ∈ d.hierarchy.indexed
  out : i ∉ is
  hierarchy : d'.hierarchy = d.hierarchy
  insert : Registry.insert u (d.hierarchy.called u i) ⟨i, d.hierarchy.kind i⟩ d.registry
    = .ok () d'.registry

/-- One step in keeping an index up, in which some elements are not entered, and names that are there
may go only for some elements. -/
inductive Upkeep (may : Table → ElementId → String → Prop) (is : List ElementId) :
    Draft → Draft → Prop where
  | enter {d d' : Draft} {u : Table} {i : ElementId} (he : Enters is u i d d') : Upkeep may is d d'
  | edit {d d' : Draft} (hs : d.Sound) (hsize : d.hierarchy.size ≤ d'.hierarchy.size)
      (hkind : ∀ i < d.hierarchy.size, d'.hierarchy.kind i = d.hierarchy.kind i)
      (hname : ∀ i ∈ d.hierarchy.indexed, ∀ u,
        u.name? (d'.hierarchy.element i) = u.name? (d.hierarchy.element i) ∨ ¬ d.hierarchy.Named u i ∨
          may u i (d.hierarchy.called u i) ∧ d.registry.index.Lacks u i)
      (hindex : d'.registry.index = d.registry.index) (hlog : d.registry.log ⊆ d'.registry.log)
      (hquiet : ∀ c, .clash c ∈ d'.registry.log → .clash c ∈ d.registry.log) : Upkeep may is d d'

/-- No name that is there goes. -/
def never : Table → ElementId → String → Prop := fun _ _ _ => False

/-! ### What a step keeps -/

theorem Upkeep.mono (hst : Upkeep may is d d') (hm : ∀ u i n, may u i n → may' u i n) :
    Upkeep may' is d d' := by
  cases hst with
  | enter he => exact .enter he
  | edit hs hsize hkind hname hindex hlog hquiet =>
    refine .edit hs hsize hkind (fun i hi u => ?_) hindex hlog hquiet
    exact (hname i hi u).imp_right (Or.imp_right (And.imp_left (hm u i _)))

theorem Upkeep.log_subset (hst : Upkeep may is d d') : d.registry.log ⊆ d'.registry.log := by
  cases hst with
  | enter he => exact Registry.log_subset_of_insert he.insert
  | edit hs hsize hkind hname hindex hlog hquiet => exact hlog

theorem Upkeep.kind (hst : Upkeep may is d d') (hi : i < d.hierarchy.size) :
    d'.hierarchy.kind i = d.hierarchy.kind i := by
  cases hst with
  | enter he => rw [he.hierarchy]
  | edit hs hsize hkind => exact hkind i hi

theorem Upkeep.size (hst : Upkeep may is d d') : d.hierarchy.size ≤ d'.hierarchy.size := by
  cases hst with
  | enter he => rw [he.hierarchy]
  | edit hs hsize => exact hsize

theorem Upkeep.mem_indexed (hst : Upkeep may is d d') (hi : i ∈ d.hierarchy.indexed) :
    i ∈ d'.hierarchy.indexed := by
  obtain ⟨hlt, hk⟩ := Hierarchy.mem_indexed.1 hi
  exact Hierarchy.mem_indexed.2 ⟨Nat.lt_of_lt_of_le hlt hst.size, by rwa [hst.kind hlt]⟩

/-- A name stays that is there and may not go. -/
theorem Upkeep.name? (hst : Upkeep may is d d') (hi : i ∈ d.hierarchy.indexed)
    (hn : d.hierarchy.Named u i) (hnot : ∀ n, ¬ may u i n) :
    u.name? (d'.hierarchy.element i) = u.name? (d.hierarchy.element i) := by
  cases hst with
  | enter he => rw [he.hierarchy]
  | edit hs hsize hkind hname =>
    exact (hname i hi u).resolve_right fun h => h.elim (· hn) fun h => hnot _ h.1

theorem Upkeep.called (hst : Upkeep may is d d') (hi : i ∈ d.hierarchy.indexed)
    (hn : d.hierarchy.Named u i) (hnot : ∀ n, ¬ may u i n) :
    d'.hierarchy.called u i = d.hierarchy.called u i :=
  Hierarchy.called_congr (hst.name? hi hn hnot)

theorem log_subset_of_upkeep (hst : ReflTransGen (Upkeep may is) d d') :
    d.registry.log ⊆ d'.registry.log := by
  induction hst with
  | refl => exact List.Subset.refl _
  | tail _ hst ih => exact List.Subset.trans ih hst.log_subset

theorem kind_of_upkeep (hst : ReflTransGen (Upkeep may is) d d') (hi : i < d.hierarchy.size) :
    i < d'.hierarchy.size ∧ d'.hierarchy.kind i = d.hierarchy.kind i := by
  induction hst with
  | refl => exact ⟨hi, rfl⟩
  | tail _ hst ih =>
    exact ⟨Nat.lt_of_lt_of_le ih.1 hst.size, (hst.kind ih.1).trans ih.2⟩

theorem mem_indexed_of_upkeep (hst : ReflTransGen (Upkeep may is) d d') (hi : i < d.hierarchy.size) :
    i ∈ d'.hierarchy.indexed ↔ i ∈ d.hierarchy.indexed := by
  obtain ⟨hlt, hk⟩ := kind_of_upkeep hst hi
  rw [Hierarchy.mem_indexed, Hierarchy.mem_indexed, hk]
  exact and_congr_left fun _ => iff_of_true hlt hi

/-- An element that is indexed and has been named stays so through all steps. -/
theorem called_of_upkeep (hst : ReflTransGen (Upkeep may is) d d') (hi : i ∈ d.hierarchy.indexed)
    (hn : d.hierarchy.Named u i) (hnot : ∀ n, ¬ may u i n) :
    i ∈ d'.hierarchy.indexed ∧ d'.hierarchy.kind i = d.hierarchy.kind i ∧
      d'.hierarchy.Named u i ∧ d'.hierarchy.called u i = d.hierarchy.called u i := by
  induction hst with
  | refl => exact ⟨hi, rfl, hn, rfl⟩
  | tail _ hst ih =>
    obtain ⟨hmem, hkind, hnamed, hcalled⟩ := ih
    refine ⟨hst.mem_indexed hmem, (hst.kind (Hierarchy.mem_indexed.1 hmem).1).trans hkind, ?_,
      (hst.called hmem hnamed hnot).trans hcalled⟩
    rw [Hierarchy.Named, hst.name? hmem hnamed hnot]
    exact hnamed

end Build

namespace Draft.Upkept

theorem blank : p.blank.Upkept where
  filed u k e he := by cases u <;> cases he
  traced u k e he := by cases u <;> cases he

theorem enter (hd : d.Upkept) (he : Enters is u i d d') : d'.Upkept := by
  obtain ⟨-, -, -, hh, hr⟩ := he
  obtain ⟨h, r⟩ := d'
  obtain rfl : h = d.hierarchy := hh
  exact ⟨hd.filed.enter hr rfl, hd.traced.insert (by rfl) hr⟩

theorem step (hd : d.Upkept) (hst : Upkeep may is d d') : d'.Upkept := by
  cases hst with
  | enter he => exact hd.enter he
  | edit hs hsize hkind hname hindex hlog hquiet =>
    -- An element with an entry has a name, and the table does not lack it.
    have hsame : ∀ ⦃u : Table⦄ ⦃k : String⦄ ⦃e : Entry⦄,
        (d.registry.index.table u).get? k = some e →
          d'.hierarchy.called u e.id = d.hierarchy.called u e.id := by
      intro u k e he
      have hkept := (hname e.id (mem_indexed_of_points hs.points he) u).resolve_right ?_
      · exact Hierarchy.called_congr hkept
      rintro (hunnamed | ⟨-, hlacks⟩)
      · exact (hd.filed he).1 (Hierarchy.called_of_unnamed hunnamed)
      · exact hlacks he rfl
    constructor
    · intro u k e he
      rw [hindex] at he ⊢
      have hnamed := hsame he
      unfold Hierarchy.called at hnamed
      rw [hnamed]
      exact hd.filed he
    · intro u k e he
      rw [hindex] at he
      rw [hsame he]
      exact (hd.traced he).imp_right fun hdis => hdis.mono hlog

theorem steps (hd : d.Upkept) (hst : ReflTransGen (Upkeep may is) d d') : d'.Upkept := by
  induction hst with
  | refl => exact hd
  | tail _ hst ih => exact ih.step hst

/-- Entries of an element may go. -/
theorem withoutNames (hd : d.Upkept) :
    ({ d with registry := withoutNames d.registry i (d.hierarchy.element i) } : Draft).Upkept where
  filed u k e he := by
    change _ ∧ (Build.withoutNames d.registry i (d.hierarchy.element i)).index.policy.Keeps _ _ _
    rw [policy_withoutNames]
    exact hd.filed (within_withoutNames he)
  traced := hd.traced.within (fun _ _ _ he => within_withoutNames he)
    (by rw [log_withoutNames]; exact List.Subset.refl _)

end Draft.Upkept

namespace Build

/-! ### Edits -/

theorem upkeep_of_fresh {o : Owner} {e : Element} (hs : d.Sound) (hf : d.hierarchy.Fresh h' o e) :
    Upkeep may is d { d with hierarchy := h' } := by
  refine .edit hs (Nat.le_of_lt hf.size_lt) (fun _ hi => hf.kind_of_lt hi) (fun i hi u => .inl ?_) rfl
    (List.Subset.refl _) fun _ h => h
  exact congrArg u.name? (hf.element_of_lt (Hierarchy.mem_indexed.1 hi).1)

theorem upkeep_of_modify {f : Element → Element} (hs : d.Sound) (hk : ∀ e, (f e).kind = e.kind)
    (hf : ∀ u e, Table.name? u (f e) = u.name? e) :
    Upkeep may is d { d with hierarchy := d.hierarchy.modify i f } := by
  refine .edit hs (by simp) (fun _ _ => Hierarchy.congr_element_modify Element.kind hk)
    (fun j _ u => .inl ?_) rfl (List.Subset.refl _) fun _ h => h
  exact Hierarchy.congr_element_modify u.name? (hf u)

theorem name?_withFacts (f : TypeFacts → TypeFacts) (u : Table) (e : Element) :
    u.name? (e.withFacts f) = u.name? e := by
  unfold Element.withFacts
  split <;> cases u <;> rfl

/-! ### Taking records in -/

theorem upkeep_of_intakeBelow (hst : IntakeBelow heads d d') (hs : d.Sound) :
    Upkeep may [] d d' := by
  cases hst with
  | below hm hp ha hc => exact upkeep_of_fresh hs .putBelow
  | inherit hm hc hn =>
    exact upkeep_of_modify hs (Element.kind_withFacts _) (name?_withFacts _)
  | enter hi ht hr =>
    refine .enter (u := .native) ⟨hs, Hierarchy.mem_indexed.2 ⟨hi, ?_⟩, List.not_mem_nil, rfl, hr⟩
    rwa [Kind.isIndexed, Bool.or_eq_true, decide_eq_true_eq]
  | notice name tag place =>
    refine .edit hs (Nat.le_refl _) (fun _ _ => rfl) (fun _ _ _ => .inl rfl) rfl
      (List.subset_append_left _ _) fun c hc => ?_
    rcases List.mem_append.1 hc with hc | hc
    · exact hc
    · cases List.mem_singleton.1 hc

theorem upkeep_of_intake (hst : Intake heads d d') (hs : d.Sound) : Upkeep may [] d d' := by
  cases hst with
  | ns hm hc => exact upkeep_of_fresh hs .putNamespace
  | enum hm hc hdot => exact upkeep_of_fresh hs .putEnum
  | below hst => exact upkeep_of_intakeBelow hst hs

/-! ### Supporting types -/

/-- A fresh type or namespace is entered under its native name. -/
theorem enters_of_fresh {o : Owner} {e : Element}
    (hs : ({ d with hierarchy := h' } : Draft).Sound) (hf : d.hierarchy.Fresh h' o e)
    (hk : e.kind.isIndexed = true) (hout : d.hierarchy.size ∉ is)
    (hr : Registry.addNative d.hierarchy.size e d.registry = .ok () r) :
    Enters is .native d.hierarchy.size { d with hierarchy := h' } ⟨h', r⟩ where
  sound := hs
  mem := Hierarchy.mem_indexed.2 ⟨hf.size_lt, by rw [hf.kind_new]; exact hk⟩
  out := hout
  hierarchy := rfl
  insert := by
    unfold Hierarchy.called
    dsimp only
    rw [hf.kind_new, hf.element_new]
    exact hr

/-- A step either makes an element and enters it, or gives a name to be taken over later. -/
theorem support_steps (hst : Support s d d') (hs : d.Sound) :
    ∃ d₁, Upkeep may [] d d₁ ∧ (d' = d₁ ∧ d₁.hierarchy.size = d.hierarchy.size ∨
      d₁.hierarchy.size = d.hierarchy.size + 1 ∧ Enters [] .native d.hierarchy.size d₁ d') := by
  cases hst with
  | @ns name r hn hr =>
    have hf : d.hierarchy.Fresh _ .root (supportNamespace name) := .putNamespace
    refine ⟨_, upkeep_of_fresh hs hf, .inr ⟨by simp, enters_of_fresh ?_ hf rfl List.not_mem_nil hr⟩⟩
    exact hs.extend (hs.orderly.putNamespace rfl) (Nat.le_of_lt hf.size_lt) fun _ hi =>
      hf.kind_of_lt hi
  | @give i hne =>
    refine ⟨_, upkeep_of_modify (i := i) (f := givenAs s.runtimeNamespace) hs (fun _ => rfl)
      fun u _ => ?_, .inl ⟨rfl, by simp⟩⟩
    cases u <;> rfl
  | @type ns kind fullName useGlobal r hns hk hr =>
    have hf : d.hierarchy.Fresh _ (.element ns) (supportType kind fullName useGlobal) := .putBelow
    have hkind : kind = .iface ∨ kind = .cls := hk.imp And.left And.left
    refine ⟨_, upkeep_of_fresh hs hf,
      .inr ⟨by simp, enters_of_fresh ?_ hf ?_ List.not_mem_nil hr⟩⟩
    · refine hs.extend (hs.orderly.putBelow (hs.orderly.lt_size_of_mem_namespaces hns) ?_)
        (Nat.le_of_lt hf.size_lt) fun _ hi => hf.kind_of_lt hi
      rw [(hs.orderly.mem_namespaces.1 hns).1]
      rcases hkind with rfl | rfl <;> rfl
    · rcases hkind with rfl | rfl <;> rfl

theorem upkeep_of_support (hst : Support s d d') (hs : d.Sound) :
    ReflTransGen (Upkeep may []) d d' := by
  obtain ⟨d₁, hedit, hentered⟩ :
      ∃ d₁, Upkeep may [] d d₁ ∧ (d' = d₁ ∧ _ ∨ _ ∧ Enters [] .native _ d₁ d') := support_steps hst hs
  obtain ⟨rfl, -⟩ | ⟨-, henter⟩ := hentered
  · exact .single hedit
  · exact .tail (.single hedit) (.enter henter)

/-! ### Nesting and managed names -/

theorem upkeep_of_typesNested (ht : TypesNested d h') (hs : d.Sound) :
    Upkeep may is d { d with hierarchy := h' } := by
  refine .edit hs (Nat.le_of_eq ht.size.symm) (fun _ _ => ht.kind) (fun i _ u => .inl ?_) rfl
    (List.Subset.refl _) fun _ h => h
  obtain ⟨name, hname⟩ := ht.named i
  dsimp only
  rw [hname]
  cases u <;> rfl

/-- Whether an element may be named, or named anew. -/
def Renewable (may : Table → ElementId → String → Prop) (i : ElementId) (d : Draft) : Prop :=
  i ∈ d.hierarchy.indexed → ¬ d.hierarchy.Named .managed i ∨
    may .managed i (d.hierarchy.called .managed i) ∧ d.registry.index.Lacks .managed i

theorem upkeep_managedAs (managed full : String) (hs : d.Sound) (hfree : Renewable may i d) :
    Upkeep may is d { d with hierarchy := d.hierarchy.modify i (managedAs managed full) } := by
  refine .edit hs (by simp) (fun _ _ => Hierarchy.congr_element_modify Element.kind fun _ => rfl)
    (fun j hj u => ?_) rfl (List.Subset.refl _) fun _ h => h
  by_cases hji : j = i
  · subst hji
    cases u with
    | native => exact .inl (Hierarchy.congr_element_modify (Table.name? .native) fun _ => rfl)
    | managed => exact .inr (hfree hj)
  · exact .inl (congrArg u.name? (Hierarchy.element_modify_of_ne hji))

theorem mem_indexed_iff : i ∈ d.hierarchy.indexed ↔
    i < d.hierarchy.size ∧ ((d.hierarchy.element i).isType = true ∨ d.hierarchy.kind i = .ns) := by
  rw [Hierarchy.mem_indexed, Kind.isIndexed, Bool.or_eq_true, decide_eq_true_eq]
  rfl

/-- An element that has been named is entered under its name, unless that is empty. -/
structure Fills (is : List ElementId) (u : Table) (i : ElementId) (d d' : Draft) : Prop where
  sound : d.Sound
  mem : i ∈ d.hierarchy.indexed
  named : d.hierarchy.Named u i
  hierarchy : d'.hierarchy = d.hierarchy
  enters : d.hierarchy.called u i ≠ "" → Enters is u i d d'
  blank : d.hierarchy.called u i = "" → d'.registry = d.registry

theorem Fills.eq (hf : Fills is u i d d') (hb : d.hierarchy.called u i = "") : d' = d := by
  have hr := hf.blank hb
  have hh := hf.hierarchy
  cases d
  cases d'
  exact Draft.mk.injEq .. ▸ ⟨hh, hr⟩

theorem Fills.upkeep (hf : Fills is u i d d') : ReflTransGen (Upkeep may is) d d' := by
  by_cases hb : d.hierarchy.called u i = ""
  · rw [hf.eq hb]
  · exact .single (.enter (hf.enters hb))

/-- An element is entered under the managed name that it has. -/
theorem fills_of_addManaged (hs : d.Sound) (hi : i ∈ d.hierarchy.indexed) (hout : i ∉ is)
    (hn : d.hierarchy.Named .managed i)
    (hr : Registry.addManaged i (d.hierarchy.element i) d.registry = .ok () r) :
    Fills is .managed i d { d with registry := r } := by
  unfold Registry.addManaged at hr
  split at hr
  next hempty =>
    cases hr
    exact ⟨hs, hi, hn, rfl, fun hne => absurd hempty hne, fun _ => rfl⟩
  next hne =>
    exact ⟨hs, hi, hn, rfl, fun _ => ⟨hs, hi, hout, rfl, hr⟩, fun hempty => absurd hempty hne⟩

section Assign
variable (hs : d.Sound) (hi : i < d.hierarchy.size) (hfree : Renewable may i d)
  (hout : i ∈ d.hierarchy.indexed → i ∉ is) (hd : assignManagedName t i d = .ok () d')
include hs hi hfree hout hd

/-- A name is given, and a type or a namespace is entered under it if it is not empty. -/
theorem assign_steps : ∃ d₁, Upkeep may is d d₁ ∧
    (i ∈ d.hierarchy.indexed → Fills is .managed i d₁ d') ∧
      (i ∉ d.hierarchy.indexed → d' = d₁) ∧ d₁.registry = d.registry := by
  obtain ⟨managed, r, -, rfl, hr⟩ := assignManagedName_ok hd
  have hsame : d.hierarchy.SameNative
      (d.hierarchy.modify i (managedAs managed (fullManagedNameOf d.hierarchy i managed))) :=
    .modify fun _ => rfl
  refine ⟨_, upkeep_managedAs managed (fullManagedNameOf d.hierarchy i managed) hs hfree,
    fun hmem => ?_, fun hnot => ?_, rfl⟩
  · obtain ⟨-, hr⟩ := hr.resolve_right fun h => h.1 (mem_indexed_iff.1 hmem).2
    refine fills_of_addManaged (hs.same hsame.toSamePlaces) ?_ (hout hmem) ?_ hr
    · rwa [Hierarchy.mem_indexed, hsame.size, hsame.kind, ← Hierarchy.mem_indexed]
    · rw [Hierarchy.Named, Hierarchy.element_modify_self hi]
      simp [Table.name?, managedAs]
  · obtain ⟨-, rfl⟩ := hr.resolve_left fun h => hnot (mem_indexed_iff.2 ⟨hi, h.1⟩)
    rfl

theorem upkeep_of_assign : ReflTransGen (Upkeep may is) d d' := by
  obtain ⟨d₁, hedit, hfill, hstay, -⟩ := assign_steps hs hi hfree hout hd
  by_cases hmem : i ∈ d.hierarchy.indexed
  · exact .head hedit (hfill hmem).upkeep
  · rw [hstay hmem]
    exact .single hedit

end Assign

/-- Elements of a list can be named one after the other: no type or namespace among them has a
managed name. -/
structure Anonymous (l : List ElementId) (d : Draft) : Prop where
  sound : d.Sound
  nodup : l.Nodup
  lt_size : ∀ i ∈ l, i < d.hierarchy.size
  unnamed : ∀ i ∈ l, i ∈ d.hierarchy.indexed → ¬ d.hierarchy.Named .managed i

theorem Anonymous.assign {l : List ElementId} (ha : Anonymous (i :: l) d)
    (hd : assignManagedName t i d = .ok () d') : Anonymous l d' := by
  obtain ⟨hi, hnodup⟩ := List.nodup_cons.1 ha.nodup
  have hnamed := namedOver_of_assign hd
  refine ⟨sound_of_assign ha.sound (ha.lt_size i List.mem_cons_self) hd, hnodup, fun j hj => ?_,
    fun j hj hmem => ?_⟩
  · rw [hnamed.size]
    exact ha.lt_size j (List.mem_cons_of_mem _ hj)
  · have hji : j ≠ i := fun h => hi (h ▸ hj)
    rw [Hierarchy.mem_indexed, hnamed.size, hnamed.kind, ← Hierarchy.mem_indexed] at hmem
    rw [Hierarchy.Named, hnamed.others (by simpa using hji)]
    exact ha.unnamed j (List.mem_cons_of_mem _ hj) hmem

/-- The first one may be named. -/
theorem Anonymous.renewable {l : List ElementId} (ha : Anonymous (i :: l) d) : Renewable may i d :=
  fun hmem => .inl (ha.unnamed i List.mem_cons_self hmem)

theorem Anonymous.upkeep {l : List ElementId} (ha : Anonymous l d)
    (hout : ∀ i ∈ l, i ∈ d.hierarchy.indexed → i ∉ is)
    (hd : l.forM (assignManagedName t) d = .ok () d') : ReflTransGen (Upkeep never is) d d' := by
  induction l generalizing d with
  | nil =>
    obtain ⟨-, rfl⟩ := pure_ok.1 hd
    exact .refl
  | cons i l ih =>
    obtain ⟨_, d₁, hi, hrest⟩ := bind_ok.1 hd
    have hnamed := namedOver_of_assign hi
    refine (upkeep_of_assign ha.sound (ha.lt_size i List.mem_cons_self) ha.renewable
      (hout i List.mem_cons_self) hi).trans
        (ih (ha.assign hi) (fun j hj hmem => hout j (List.mem_cons_of_mem _ hj) ?_) hrest)
    rwa [Hierarchy.mem_indexed, hnamed.size, hnamed.kind, ← Hierarchy.mem_indexed] at hmem

/-- Where no type or namespace is named, nothing is entered. -/
theorem registry_of_forM {l : List ElementId} (hnot : ∀ i ∈ l, i ∉ d.hierarchy.indexed)
    (hlt : ∀ i ∈ l, i < d.hierarchy.size) (hd : l.forM (assignManagedName t) d = .ok () d') :
    d'.registry = d.registry := by
  refine (forM_ok (I := fun is d₁ => d.hierarchy.SamePlaces d₁.hierarchy ∧
    d₁.registry = d.registry ∧ ∀ i ∈ is, i ∈ l) ?_ ⟨.refl _, rfl, fun _ => id⟩ hd).2.1
  rintro i is d₁ d₂ ⟨hsame, hreg, hl⟩ hrun
  have hi := hl i List.mem_cons_self
  have hstay : ¬ ((d₁.hierarchy.element i).isType = true ∨ d₁.hierarchy.kind i = .ns) := fun h => by
    refine hnot i hi ?_
    rw [Hierarchy.mem_indexed, ← hsame.size, ← hsame.kind, ← Hierarchy.mem_indexed]
    exact mem_indexed_iff.2 ⟨hsame.size ▸ hlt i hi, h⟩
  have hnamed := namedOver_of_assign hrun
  obtain ⟨_, r, -, rfl, ⟨h, -⟩ | ⟨-, rfl⟩⟩ := assignManagedName_ok hrun
  · exact absurd h hstay
  · exact ⟨hsame.trans hnamed.toSamePlaces, hreg, fun j hj => hl j (List.mem_cons_of_mem _ hj)⟩

/-! ### Invokers -/

/-- A fresh invoker is named and entered into both tables. -/
theorem invoker_steps (hs : d.Sound) (hk : d.hierarchy.kind i = .iface)
    (hd : makeInvoker p i d = .ok () d') :
    ∃ d₁ d₂ d₃, ReflTransGen (Upkeep never []) d d₁ ∧ Fills [] .managed d.hierarchy.size d₁ d₂ ∧
      Enters [] .native d.hierarchy.size d₂ d₃ ∧ Upkeep never [] d₃ d' ∧
        d'.hierarchy.size = d.hierarchy.size + 1 := by
  obtain ⟨q, d₂, r, hi, hassign, hr, rfl⟩ := makeInvoker_ok hd
  have hf : d.hierarchy.Fresh (besideInterface p d.hierarchy q i) (.element q)
    (invokerOf p.settings d.hierarchy q i) := .putBelow
  have hbeside := sound_besideInterface p hs hi hk
  have hnamed := namedOver_of_assign hassign
  have hfree : Renewable never d.hierarchy.size
      { d with hierarchy := besideInterface p d.hierarchy q i } := by
    refine fun _ => .inl ?_
    unfold Hierarchy.Named
    dsimp only
    rw [hf.element_new]
    exact not_not_intro rfl
  have hmem : d.hierarchy.size ∈ (besideInterface p d.hierarchy q i).indexed :=
    Hierarchy.mem_indexed.2 ⟨hf.size_lt, by rw [hf.kind_new]; rfl⟩
  have hmem₂ : d.hierarchy.size ∈ d₂.hierarchy.indexed := by
    rwa [Hierarchy.mem_indexed, hnamed.size, hnamed.kind, ← Hierarchy.mem_indexed]
  have hs₂ := sound_of_assign hbeside hf.size_lt hassign
  have henter : Enters [] .native d.hierarchy.size d₂ { d₂ with registry := r } :=
    ⟨hs₂, hmem₂, List.not_mem_nil, rfl, hr⟩
  have hs₃ : ({ d₂ with registry := r } : Draft).Sound := by
    obtain ⟨hlt, hk⟩ := mem_indexed_iff.1 hmem₂
    exact ⟨hs₂.orderly, hs₂.points.addNative hlt rfl hk hr⟩
  have hsize : (d₂.hierarchy.modify i (Element.withFacts fun f =>
      { f with invoker := some d.hierarchy.size })).size = d.hierarchy.size + 1 := by
    rw [Hierarchy.size_modify, hnamed.size, besideInterface, Hierarchy.size_putBelow]
  obtain ⟨d₁, hedit, hmanaged, -⟩ : ∃ d₁, Upkeep never [] _ d₁ ∧ _ :=
    assign_steps hbeside hf.size_lt hfree (fun _ => List.not_mem_nil) hassign
  refine ⟨d₁, d₂, _, .tail (.single (upkeep_of_fresh hs hf)) hedit, hmanaged hmem, henter, ?_, hsize⟩
  exact upkeep_of_modify hs₃ (Element.kind_withFacts _) (name?_withFacts _)

theorem upkeep_of_makeInvoker (hs : d.Sound) (hk : d.hierarchy.kind i = .iface)
    (hd : makeInvoker p i d = .ok () d') : ReflTransGen (Upkeep never []) d d' := by
  obtain ⟨d₁, d₂, d₃, hbefore, hmanaged, hnative, hafter, -⟩ := invoker_steps hs hk hd
  exact ((hbefore.trans hmanaged.upkeep).tail (.enter hnative)).tail hafter

/-! ### Renaming enums -/

/-- The name under which a table kept an element may go. -/
def formerly (h : Hierarchy) (i : ElementId) (v : Table) : Table → ElementId → String → Prop :=
  fun u j n => u = v ∧ j = i ∧ h.called u i = n

section Rename
variable (hs : d.Sound) (hk : d.hierarchy.kind i = .enum) (hi : d.hierarchy.owner i ≠ .detached)
  (hd : renameEnum t i d = .ok () d')
include hs hk

/-- What stands below an enum is not in the index. -/
theorem not_isIndexed_of_above (ha : d.hierarchy.Above i j) :
    ¬ (d.hierarchy.kind j).isIndexed = true := by
  have hbelow := belowEnum_of_above hs.orderly hk ha
  revert hbelow
  cases d.hierarchy.kind j <;> decide

include hi hd

/-- The other types and namespaces stay as they are. -/
theorem element_of_rename (hj : j ∈ d.hierarchy.indexed) (hji : j ≠ i) :
    d'.hierarchy.element j = d.hierarchy.element j := by
  obtain ⟨r, -, hnames⟩ := renameEnum_ok hd
  have hlt := Hierarchy.lt_size_of_owner_ne hi
  rw [(namedOver_of_forM hnames).others ?_]
  · exact Hierarchy.element_modify_of_ne hji
  · intro hmem
    rcases (mem_walk_fullyNamed hs.orderly hlt).1 hmem with rfl | ha
    · exact hji rfl
    · exact not_isIndexed_of_above hs hk ha (Hierarchy.mem_indexed.1 hj).2

/-- Once its entries are gone, an enum takes its new full name and is entered under it, and then takes
its new managed name and is entered under that. Nothing else is entered. -/
theorem rename_steps (hf : d.Filed) (hout : i ∉ is) : ∃ d₁ d₂ d₃ d₄,
    Upkeep (formerly d.hierarchy i .native) is
      { d with registry := withoutNames d.registry i (d.hierarchy.element i) } d₁ ∧
    Enters is .native i d₁ d₂ ∧ Upkeep (formerly d.hierarchy i .managed) is d₂ d₃ ∧
    Fills is .managed i d₃ d₄ ∧ ReflTransGen (Upkeep never is) d₄ d' ∧
    d₁.registry = withoutNames d.registry i (d.hierarchy.element i) ∧ d₃.registry = d₂.registry ∧
      d'.registry = d₄.registry := by
  obtain ⟨r, hr, hnames⟩ := renameEnum_ok hd
  have hlt : i < d.hierarchy.size := Hierarchy.lt_size_of_owner_ne hi
  have hsame := samePlaces_fullyNamed (h := d.hierarchy) (i := i)
  have ho : (fullyNamed d.hierarchy i).Orderly := hsame.orderly hs.orderly
  have hkind : (fullyNamed d.hierarchy i).kind i = .enum := hsame.kind ▸ hk
  have hmem : i ∈ (fullyNamed d.hierarchy i).indexed :=
    Hierarchy.mem_indexed.2 ⟨hsame.size ▸ hlt, by rw [hkind]; rfl⟩
  have hwithout : ({ d with registry := withoutNames d.registry i (d.hierarchy.element i) } :
      Draft).Sound := ⟨hs.orderly, within_withoutNames.points hs.points⟩
  have hs₁ := hwithout.same hsame
  have hlacks : ∀ u, (withoutNames d.registry i (d.hierarchy.element i)).index.Lacks u i :=
    fun u => lacks_of_withoutNames hs hf
  have hkept : Table.name? .managed ((fullyNamed d.hierarchy i).element i) =
      Table.name? .managed (d.hierarchy.element i) :=
    Hierarchy.congr_element_modify (Table.name? .managed) fun _ => rfl
  have hedit : Upkeep (formerly d.hierarchy i .native) is
      { d with registry := withoutNames d.registry i (d.hierarchy.element i) }
      ⟨fullyNamed d.hierarchy i, withoutNames d.registry i (d.hierarchy.element i)⟩ := by
    refine .edit hwithout (Nat.le_of_eq hsame.size.symm) (fun _ _ => by rw [hsame.kind])
      (fun j _ u => ?_) rfl (List.Subset.refl _) fun _ h => h
    by_cases hji : j = i
    · subst hji
      cases u with
      | native => exact .inr (.inr ⟨⟨rfl, rfl, rfl⟩, hlacks .native⟩)
      | managed => exact .inl hkept
    · exact .inl (congrArg u.name? (Hierarchy.element_modify_of_ne hji))
  have henter : Enters is .native i
      ⟨fullyNamed d.hierarchy i, withoutNames d.registry i (d.hierarchy.element i)⟩
      ⟨fullyNamed d.hierarchy i, r⟩ := ⟨hs₁, hmem, hout, rfl, hr⟩
  have hs₂ : (⟨fullyNamed d.hierarchy i, r⟩ : Draft).Sound :=
    ⟨ho, hs₁.points.addNative (hsame.size ▸ hlt) rfl (mem_indexed_iff (d := ⟨_, r⟩)|>.1 hmem).2 hr⟩
  have hfree : Renewable (formerly d.hierarchy i .managed) i ⟨fullyNamed d.hierarchy i, r⟩ := by
    have hlacks' : r.index.Lacks .managed i := (hlacks .managed).of_insert hr (by simp)
    exact fun _ => .inr ⟨⟨rfl, rfl, Hierarchy.called_congr hkept.symm⟩, hlacks'⟩
  have hwalk := ho.walk_eq (hsame.size ▸ hlt)
  have hnodup := Hierarchy.WellFormed.nodup_of_pairwise (ho.pairwise_walk i)
  have hreach : ∀ j ∈ (fullyNamed d.hierarchy i).walk i,
      j < (fullyNamed d.hierarchy i).size ∧ d.hierarchy.Covers i j :=
    fun j hj => ⟨ho.lt_size_of_mem_walk (hsame.size ▸ hlt) hj,
      (mem_walk_fullyNamed hs.orderly hlt).1 hj⟩
  rw [hwalk] at hnames hnodup hreach
  obtain ⟨_, d₄, hassign, hrest⟩ := bind_ok.1 hnames
  have hnamed := namedOver_of_assign hassign
  obtain ⟨d₃, hedit', hmanaged, -, hreg⟩ :=
    assign_steps hs₂ (hsame.size ▸ hlt) hfree (fun _ => hout) hassign
  -- What stands below the enum is named, but not entered.
  have hbelow : ∀ j ∈ ((fullyNamed d.hierarchy i).members i).flatMap (fullyNamed d.hierarchy i).walk,
      j < d₄.hierarchy.size ∧ j ∉ d₄.hierarchy.indexed := by
    intro j hj
    have hji : j ≠ i := fun h => (List.nodup_cons.1 hnodup).1 (h ▸ hj)
    obtain ⟨hlt', hcovers⟩ := hreach j (List.mem_cons_of_mem _ hj)
    refine ⟨hnamed.size ▸ hlt', fun hmem => ?_⟩
    have hindexed := (Hierarchy.mem_indexed.1 hmem).2
    rw [hnamed.kind] at hindexed
    dsimp only at hindexed
    rw [hsame.kind] at hindexed
    exact not_isIndexed_of_above hs hk (hcovers.resolve_left hji) hindexed
  have hrest' : Anonymous _ d₄ := ⟨sound_of_assign hs₂ (hsame.size ▸ hlt) hassign,
    (List.nodup_cons.1 hnodup).2, fun j hj => (hbelow j hj).1,
    fun j hj hmem => absurd hmem (hbelow j hj).2⟩
  exact ⟨_, _, d₃, d₄, hedit, henter, hedit', hmanaged hmem,
    hrest'.upkeep (fun j hj hmem => absurd hmem (hbelow j hj).2) hrest, rfl, hreg,
    registry_of_forM (fun j hj => (hbelow j hj).2) (fun j hj => (hbelow j hj).1) hrest⟩

theorem upkeep_of_rename (hf : d.Filed) (hout : i ∉ is)
    (hmay : ∀ u, may u i (d.hierarchy.called u i)) : ReflTransGen (Upkeep may is)
      { d with registry := withoutNames d.registry i (d.hierarchy.element i) } d' := by
  obtain ⟨d₁, d₂, d₃, d₄, hfull, hnative, hmanaged, henter, hrest, -⟩ :=
    rename_steps hs hk hi hd hf hout
  have hformer : ∀ {v : Table} u j n, formerly d.hierarchy i v u j n → may u j n := by
    rintro v u j n ⟨-, rfl, rfl⟩
    exact hmay u
  have hbefore := ((ReflTransGen.single (hfull.mono hformer)).tail (.enter hnative)).tail
    (hmanaged.mono hformer)
  have hafter : ReflTransGen (Upkeep may is) d₄ d' :=
    hrest.lift id fun _ _ hst => hst.mono fun _ _ _ h => h.elim
  exact (hbefore.trans henter.upkeep).trans hafter

end Rename

end Build

end BindingTree

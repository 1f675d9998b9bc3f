import BindingTree.Proofs.Build.EnumNames
import BindingTree.Proofs.Build.Policies

/-! The strict policy and that of new keys agree up to the first clash. An element that finds another
kind in its way is kept without a word if the key with its kind leads to it already; before any clash
no key does, as every entry stands under a full name of its element and a key with a kind is never
that. The two places where names change are no exception: a first managed name meets no managed
entry, and the entries of an enum go before it is renamed. -/

namespace BindingTree

open Naming (Translator)
open Relation (ReflTransGen)

/-- The name under which a table keeps an element. -/
def Table.nameOf : Table → Element → String
  | .native, e => e.fullName
  | .managed, e => e.fullManagedText

/-- Before any clash every entry stands under the name of its element. -/
def Draft.Tidy (d : Draft) : Prop :=
  d.registry.Clean → ∀ ⦃u : Table⦄ ⦃k : String⦄ ⦃e : Entry⦄,
    (d.registry.index.table u).get? k = some e → k ≠ "" ∧ k = u.nameOf (d.hierarchy.element e.id)

/-- Before any clash a table has no entry of an element. -/
def Registry.Lacks (r : Registry) (u : Table) (i : ElementId) : Prop :=
  r.Clean → ∀ ⦃k : String⦄ ⦃e : Entry⦄, (r.index.table u).get? k = some e → e.id ≠ i

variable {p : Plan} {s : Settings} {t : Translator} {heads : List Record.Head} {d d' : Draft}
  {r r' : Registry} {h' : Hierarchy} {i j q ns : ElementId} {u : Table} {key k : String}
  {entry e : Entry} {is : List ElementId}

/-! ### Entries before any clash -/

theorem Registry.Clean.of_insert (hr : Registry.insert u key entry r = .ok () r')
    (hc : r'.Clean) : r.Clean := by
  obtain ⟨-, ⟨-, rfl⟩ | ⟨existing, -, hpolicy, ⟨-, rfl⟩ | ⟨-, rfl⟩⟩⟩ := Registry.insert_cases hr
  · exact ⟨Index.policy_setTable.symm.trans hc.policy, hc.quiet⟩
  · exact hc
  · exact ⟨hpolicy, fun n hn => hc.quiet n (List.mem_append_left _ hn)⟩

theorem Registry.Lacks.of_insert (hl : r.Lacks u i)
    (hr : Registry.insert u key entry r = .ok () r') (hi : entry.id ≠ i) : r'.Lacks u i := by
  intro hc k e he
  rcases Registry.get?_of_insert hr he with hold | ⟨-, rfl, -⟩
  · exact hl (hc.of_insert hr) hold
  · exact hi

theorem Registry.Lacks.of_insert_other {v : Table} (hl : r.Lacks u i) (huv : u ≠ v)
    (hr : Registry.insert v key entry r = .ok () r') : r'.Lacks u i := by
  intro hc k e he
  rcases Registry.get?_of_insert hr he with hold | ⟨he, -, -⟩
  · exact hl (hc.of_insert hr) hold
  · exact absurd he huv

namespace Draft.Tidy

variable (hd : d.Tidy)
include hd

/-- The key with a kind does not lead to an element that is about to be entered under its name. -/
theorem free (hc : d.registry.Clean) (kind : Kind) :
    Index.leadsTo (d.registry.index.table u)
      (kind.keyed (u.nameOf (d.hierarchy.element i))) i = false := by
  rw [Index.leadsTo, Bool.eq_false_iff]
  intro hany
  rw [Option.any_eq_true] at hany
  obtain ⟨e, he, hid⟩ := hany
  have hname := (hd hc he).2
  rw [of_decide_eq_true hid] at hname
  exact Index.keyed_ne _ _ hname

theorem enter (hr : Registry.insert u key entry d.registry = .ok () r)
    (hkey : key = u.nameOf (d.hierarchy.element entry.id)) :
    ({ d with registry := r } : Draft).Tidy := by
  intro hc v k e he
  have hne := (Registry.insert_cases hr).1
  rcases Registry.get?_of_insert hr he with hold | ⟨rfl, rfl, hk⟩
  · exact hd (hc.of_insert hr) hold
  · rcases hk with ⟨rfl, -⟩ | rfl
    · exact ⟨hne, hkey⟩
    · -- An entry under a key with a kind was there before, or was reported.
      obtain ⟨-, ⟨-, rfl⟩ | ⟨existing, -, -, ⟨-, rfl⟩ | ⟨-, rfl⟩⟩⟩ := Registry.insert_cases hr
      · rw [Index.table_setTable, if_pos rfl, KeyedList.get?_put,
          if_neg (Index.keyed_ne _ _)] at he
        exact hd (hc.of_insert hr) he
      · exact hd hc he
      · exact absurd rfl (hc.quiet _ (List.mem_append_right _ List.mem_cons_self))

theorem addNative (hr : Registry.addNative i (d.hierarchy.element i) d.registry = .ok () r) :
    ({ d with registry := r } : Draft).Tidy :=
  hd.enter (u := .native) hr rfl

theorem addManaged (hr : Registry.addManaged i (d.hierarchy.element i) d.registry = .ok () r) :
    ({ d with registry := r } : Draft).Tidy := by
  unfold Registry.addManaged at hr
  split at hr
  · cases hr
    exact hd
  · exact hd.enter (u := .managed) hr rfl

theorem within (hw : Build.Within r.index d.registry.index) (hc : r.Clean → d.registry.Clean) :
    ({ d with registry := r } : Draft).Tidy :=
  fun h _ _ _ he => hd (hc h) (hw he)

/-- Names may change where a table has no entry. -/
theorem edit (hp : d.registry.index.PointsInto d.hierarchy)
    (hn : ∀ i < d.hierarchy.size, ∀ u : Table,
      u.nameOf (h'.element i) = u.nameOf (d.hierarchy.element i) ∨ d.registry.Lacks u i) :
    ({ d with hierarchy := h' } : Draft).Tidy := by
  intro hc u k e he
  obtain ⟨hne, hname⟩ := hd hc he
  rcases hn e.id (hp he).1 u with hsame | hlacks
  · exact ⟨hne, hname.trans hsame.symm⟩
  · exact absurd rfl (hlacks hc he)

theorem fresh {o : Owner} {x : Element} (hp : d.registry.index.PointsInto d.hierarchy)
    (hf : d.hierarchy.Fresh h' o x) : ({ d with hierarchy := h' } : Draft).Tidy :=
  hd.edit hp fun i hi u => .inl (by rw [hf.element_of_lt hi])

theorem modify {f : Element → Element} (hp : d.registry.index.PointsInto d.hierarchy)
    (hf : ∀ u e, Table.nameOf u (f e) = u.nameOf e) :
    ({ d with hierarchy := d.hierarchy.modify i f } : Draft).Tidy :=
  hd.edit hp fun _ _ u => .inl (Hierarchy.congr_element_modify u.nameOf (hf u))

theorem notice {n : Notice} : ({ d with registry := d.registry.notice n } : Draft).Tidy :=
  fun hc => hd ⟨hc.policy, fun k hk => hc.quiet k (List.mem_append_left _ hk)⟩

end Draft.Tidy

theorem Table.nameOf_withFacts (f : TypeFacts → TypeFacts) (u : Table) (x : Element) :
    u.nameOf (x.withFacts f) = u.nameOf x := by
  unfold Element.withFacts
  split
  · cases u <;> rfl
  · rfl

/-- No entry leads to an element that is yet to be made. -/
theorem Draft.Sound.lacks (hs : d.Sound) (hi : d.hierarchy.size ≤ i) : d.registry.Lacks u i := by
  rintro - k e he rfl
  exact absurd (hs.points he).1 (Nat.not_lt.2 hi)

namespace Build

/-! ### Taking records in -/

theorem tidy_of_below (hst : IntakeBelow heads d d') (hs : d.Sound) (hd : d.Tidy) : d'.Tidy := by
  cases hst with
  | below hm hp ha hc => exact hd.fresh hs.points .putBelow
  | inherit hm hc hn => exact hd.modify hs.points (Table.nameOf_withFacts _)
  | enter hi ht hr => exact hd.addNative hr
  | notice => exact hd.notice

theorem tidy_of_intake (hst : Intake heads d d') (hs : d.Sound) (hd : d.Tidy) : d'.Tidy := by
  cases hst with
  | ns hm hc => exact hd.fresh hs.points .putNamespace
  | enum hm hc hdot => exact hd.fresh hs.points .putEnum
  | below hst => exact tidy_of_below hst hs hd

theorem tidy_of_intakeBelow (hst : ReflTransGen (IntakeBelow heads) d d') (hs : d.Sound)
    (hd : d.Tidy) : d'.Sound ∧ d'.Tidy :=
  hs.induction (fun h => (Intake.below h).sound) tidy_of_below hst hd

theorem agrees_addNative_of (hd : d.Tidy) :
    Agrees (onRegistry (Registry.addNative i (d.hierarchy.element i))) d :=
  agrees_insert fun hc => hd.free (u := .native) hc _

theorem agrees_addManaged_of (hd : d.Tidy) :
    Agrees (onRegistry (Registry.addManaged i (d.hierarchy.element i))) d := by
  unfold Registry.addManaged
  split
  · exact agrees_of_apart rfl rfl
  · exact agrees_insert fun hc => hd.free (u := .managed) hc _

theorem agrees_addNative (hd : d.Tidy) : Agrees (addNative i) d := by
  refine agrees_element.bind fun e d₁ he => ?_
  obtain ⟨rfl, rfl⟩ := element_ok.1 he
  exact agrees_addNative_of hd

theorem agrees_addManaged (hd : d.Tidy) : Agrees (addManaged i) d := by
  refine agrees_element.bind fun e d₁ he => ?_
  obtain ⟨rfl, rfl⟩ := element_ok.1 he
  exact agrees_addManaged_of hd

theorem agrees_create {head : Record.Head} {o : Owner} : Agrees (create head o) d := by
  unfold create
  split
  · exact agrees_fail
  · refine agrees_hierarchy.bind fun h _ _ => agrees_make.bind fun id _ _ => ?_
    cases o with
    | element q => exact agrees_addMember.bind fun _ _ _ => agrees_pure
    | root => exact agrees_pure.bind fun _ _ _ => agrees_pure
    | detached => exact agrees_pure.bind fun _ _ _ => agrees_pure

theorem agrees_inherit {head : Record.Head} : Agrees (inherit i head) d := by
  rcases inherit_cases i head with he | ⟨name, -, -, he⟩
  · rw [he]
    exact agrees_pure
  · rw [he]
    exact agrees_editElement

mutual

theorem agrees_ingestChild {q : ElementId} : ∀ (r : Record) {d : Draft}, q < d.hierarchy.size →
    d.Sound → d.Tidy → Agrees (ingestChild q r) d
  | ⟨head, children⟩, d, hq, hs, hd => by
    rw [ingestChild]
    refine agrees_element.bind fun x d₁ hx => ?_
    obtain ⟨rfl, rfl⟩ := element_ok.1 hx
    split
    next ha =>
      refine agrees_create.bind fun id d₁ hcreate => ?_
      obtain ⟨payload, hc, rfl, rfl⟩ := create_below_ok hcreate
      have hs₁ : IntakeBelow [head] d ⟨_, d.registry⟩ := .below List.mem_cons_self hq ha hc
      refine agrees_inherit.bind fun _ d₂ hinherit => ?_
      have hstep : ReflTransGen (IntakeBelow [head]) _ d₂ :=
        inherit_ok List.mem_cons_self hinherit
      have hs₂ := hstep.head hs₁
      obtain ⟨hsound, htidy⟩ := tidy_of_intakeBelow hs₂ hs hd
      have hlt : d.hierarchy.size < d₂.hierarchy.size :=
        Nat.lt_of_lt_of_le (by simp)
          (grows_of_below hstep).1
      refine (agrees_ingestChildren children hlt hsound htidy).bind fun _ d₃ hchildren => ?_
      have hs₃ : ReflTransGen (IntakeBelow (Record.headsOf children)) d₂ d₃ :=
        ingestChildren_ok children (fun _ hx => hx) hlt hchildren
      refine agrees_element.bind fun x d₄ hx => ?_
      obtain ⟨rfl, rfl⟩ := element_ok.1 hx
      split
      · exact agrees_addNative (tidy_of_intakeBelow hs₃ hsound htidy).2
      · exact agrees_pure
    next => exact agrees_notice (by simp [Notice.kind])

theorem agrees_ingestChildren {q : ElementId} : ∀ (rs : List Record) {d : Draft},
    q < d.hierarchy.size → d.Sound → d.Tidy → Agrees (ingestChildren q rs) d
  | [], d, _, _, _ => by
    rw [ingestChildren]
    exact agrees_pure
  | r :: rs, d, hq, hs, hd => by
    rw [ingestChildren]
    refine (agrees_ingestChild r hq hs hd).bind fun _ d₁ hr => ?_
    have hst : ReflTransGen (IntakeBelow r.heads) d d₁ := ingestChild_ok r (fun _ hx => hx) hq hr
    obtain ⟨hs₁, hd₁⟩ := tidy_of_intakeBelow hst hs hd
    exact agrees_ingestChildren rs (Nat.lt_of_lt_of_le hq (grows_of_below hst).1) hs₁ hd₁

end

theorem agrees_ingestTop {r : Record} {o : Owner} {x : Element} (hs : d.Sound) (hd : d.Tidy)
    (hst : Intake r.heads d { d with hierarchy := h' }) (hf : d.hierarchy.Fresh h' o x) :
    Agrees (do
      ingestChildren d.hierarchy.size r.children
      addNative d.hierarchy.size) { d with hierarchy := h' } := by
  have hs₁ := hst.sound hs
  have hd₁ := tidy_of_intake hst hs hd
  refine (agrees_ingestChildren r.children hf.size_lt hs₁ hd₁).bind fun _ d₂ hchildren => ?_
  have hbelow : ReflTransGen (IntakeBelow (Record.headsOf r.children)) _ d₂ :=
    ingestChildren_ok r.children (fun _ hx => hx) hf.size_lt hchildren
  exact agrees_addNative (tidy_of_intakeBelow hbelow hs₁ hd₁).2

theorem agrees_ingestNamespace {r : Record} (hr : r.tag = .ns) (hs : d.Sound) (hd : d.Tidy) :
    Agrees (ingestNamespace r) d := by
  obtain ⟨info, hc⟩ := content_of_tag_ns hr
  refine (agrees_ingestTop hs hd (.ns ?_ hc) .putNamespace).congr rfl rfl (ingestNamespace_run hc)
    (ingestNamespace_run hc)
  cases r
  simp [Record.heads]

theorem agrees_ingestEnum {r : Record} (hr : r.tag = .enum) (hs : d.Sound) (hd : d.Tidy) :
    Agrees (ingestEnum r) d := by
  obtain ⟨info, hc⟩ := content_of_tag_enum hr
  by_cases hdot : r.name.toList.head? = some '.'
  · refine agrees_of_apart ?_ ?_
    · rw [ingestEnum_leadingDot hdot]
      rfl
    · rw [ingestEnum_leadingDot hdot, ingestEnum_leadingDot hdot]
      rfl
  · refine (agrees_ingestTop hs hd (.enum ?_ hc hdot) .putEnum).congr rfl rfl
      (ingestEnum_run hc hdot) (ingestEnum_run hc hdot)
    cases r
    simp [Record.heads]

theorem agrees_ingest {rs : List Record} (hs : d.Sound) (hd : d.Tidy) : Agrees (ingest rs) d := by
  refine agrees_forM (I := fun _ d => d.Sound ∧ d.Tidy) ?_ ?_ ⟨hs, hd⟩
  · rintro r _ d ⟨hs, hd⟩
    split
    next hr => exact agrees_ingestNamespace hr hs hd
    next hr => exact agrees_ingestEnum hr hs hd
    next => exact agrees_notice (by simp [Notice.kind])
  · rintro r _ d d₁ ⟨hs, hd⟩ hr
    have hst : ReflTransGen (Intake r.heads) d d₁ := by
      have hone : ingest [r] d = .ok () d₁ := bind_ok.2 ⟨(), d₁, hr, pure_ok.2 ⟨rfl, rfl⟩⟩
      exact ingest_ok (fun x hx => by simpa [Record.headsOf] using hx) hone
    exact hs.induction Intake.sound tidy_of_intake hst hd

/-! ### Supporting types -/

theorem tidy_of_support (hst : Support s d d') (hs : d.Sound) (hd : d.Tidy) : d'.Tidy := by
  cases hst with
  | @ns name r hn hr =>
    have hf := Hierarchy.Fresh.putNamespace (h := d.hierarchy) (e := supportNamespace name)
    have hfresh := hd.fresh hs.points hf
    refine hfresh.addNative (i := d.hierarchy.size) ?_
    dsimp only
    rwa [hf.element_new]
  | give hne =>
    refine hd.modify (f := givenAs s.runtimeNamespace) hs.points fun u _ => ?_
    cases u <;> rfl
  | @type ns kind fullName useGlobal r hns hk hr =>
    have hf := Hierarchy.Fresh.putBelow (h := d.hierarchy) (p := ns)
      (e := supportType kind fullName useGlobal)
    have hfresh := hd.fresh hs.points hf
    have hadd : Registry.addNative d.hierarchy.size
        ((d.hierarchy.putBelow ns (supportType kind fullName useGlobal)).element d.hierarchy.size)
        d.registry = .ok () r := by
      rwa [hf.element_new]
    exact hfresh.addNative hadd

theorem tidy_of_supports (hst : ReflTransGen (Support s) d d') (hs : d.Sound) (hd : d.Tidy) :
    d'.Sound ∧ d'.Tidy :=
  hs.induction Support.sound tidy_of_support hst hd

theorem agrees_enter (hd : d.Tidy) : Agrees (enter i) d := by
  refine agrees_element.bind fun e d₁ he => ?_
  obtain ⟨rfl, rfl⟩ := element_ok.1 he
  unfold Registry.add
  rw [onRegistry_bind]
  refine (agrees_addNative_of hd).bind fun _ d₁ hrun => ?_
  obtain ⟨r, hr, rfl⟩ := onRegistry_ok.1 hrun
  exact agrees_addManaged_of (hd.addNative hr)

theorem agrees_makeNamespace {name : String} (hs : d.Sound) (hd : d.Tidy) :
    Agrees (makeNamespace name) d := by
  refine agrees_make.bind fun id d₁ hmake => agrees_edit.bind fun _ d₂ hedit => ?_
  obtain ⟨rfl, rfl⟩ := make_ok.1 hmake
  obtain rfl := edit_ok.1 hedit
  have hf := Hierarchy.Fresh.putNamespace (h := d.hierarchy) (e := supportNamespace name)
  exact (agrees_enter (hd.fresh hs.points hf)).bind fun _ _ _ => agrees_pure

theorem agrees_makeType {kind : TypeKind} {fullName : String} {useGlobal : Bool} (hs : d.Sound)
    (hd : d.Tidy) : Agrees (makeType ns kind fullName useGlobal) d := by
  refine agrees_make.bind fun id d₁ hmake => agrees_addMember.bind fun _ d₂ hadd => ?_
  obtain ⟨rfl, rfl⟩ := make_ok.1 hmake
  obtain ⟨-, -, rfl⟩ := addMember_ok.1 hadd
  have hf := Hierarchy.Fresh.putBelow (h := d.hierarchy) (p := ns)
    (e := supportType kind fullName useGlobal)
  exact agrees_enter (hd.fresh hs.points hf)

theorem agrees_runtimeNamespace {name : String} (hs : d.Sound) (hd : d.Tidy) :
    Agrees (runtimeNamespace name) d := by
  refine agrees_hierarchy.bind fun h d₁ hh => ?_
  obtain ⟨rfl, rfl⟩ := hierarchy_ok.1 hh
  split
  · exact agrees_pure
  · exact (agrees_makeNamespace hs hd).bind fun _ _ _ =>
      agrees_editElement.bind fun _ _ _ => agrees_pure

theorem agrees_rootNamespace {name : String} (hs : d.Sound) (hd : d.Tidy) :
    Agrees (rootNamespace name) d := by
  unfold rootNamespace
  split
  · refine agrees_hierarchy.bind fun h d₁ hh => ?_
    obtain ⟨rfl, rfl⟩ := hierarchy_ok.1 hh
    split
    · exact agrees_pure
    · exact agrees_makeNamespace hs hd
  · exact agrees_makeNamespace hs hd

theorem agrees_ensureRootType (hs : d.Sound) (hd : d.Tidy) :
    Agrees (ensureRootType s.rootType) d := by
  refine agrees_index_bind (fun _ _ => rfl) ?_
  dsimp only
  split
  · exact agrees_pure
  next hnone =>
    have hfound : ∀ e, d.registry.index.lookup? s.rootType (some .cls) = some e →
        e.kind ≠ .cls := by
      rintro e he hcls
      exact hnone (by simp [he, hcls, Kind.isClass])
    refine (agrees_rootNamespace hs hd).bind fun ns d₁ hns => ?_
    obtain ⟨hs₁, hd₁⟩ := tidy_of_supports (rootNamespace_ok hs hfound hns).1 hs hd
    exact agrees_makeType hs₁ hd₁

theorem agrees_bootstrap (hs : d.Sound) (hd : d.Tidy) : Agrees (bootstrap s) d := by
  refine (agrees_runtimeNamespace hs hd).bind fun ns d₁ hns => ?_
  obtain ⟨hsteps, hmem⟩ := runtimeNamespace_ok hs hns
  obtain ⟨hs₁, hd₁⟩ := tidy_of_supports hsteps hs hd
  refine agrees_hierarchy.bind fun h d₂ hh => ?_
  obtain ⟨rfl, rfl⟩ := hierarchy_ok.1 hh
  have hroot : ∀ {d : Draft}, d.Sound → d.Tidy →
      Agrees (if s.makeRootType then ensureRootType s.rootType else pure ()) d := by
    intro d hs hd
    split
    · exact agrees_ensureRootType hs hd
    · exact agrees_pure
  by_cases hface : hasInterface d₁.hierarchy ns s.baseInterface = true
  · simp only [if_pos hface]
    exact hroot hs₁ hd₁
  · simp only [if_neg hface]
    refine (agrees_makeType hs₁ hd₁).bind fun _ d₃ htype => ?_
    obtain ⟨r, hr, rfl⟩ := makeType_ok htype
    obtain ⟨hs₃, hd₃⟩ := tidy_of_supports (s := s) (.single (.type hmem (.inl ⟨rfl, rfl⟩) hr)) hs₁ hd₁
    exact hroot hs₃ hd₃

/-! ### Nesting and managed names -/

theorem agrees_newOwner? {accept : Kind → Bool} : Agrees (newOwner? accept i) d := by
  refine agrees_element.bind fun e _ _ => ?_
  split
  · exact agrees_pure
  · refine agrees_lookup.bind fun owner _ _ => agrees_element.bind fun e _ _ => ?_
    split
    · exact agrees_pure
    · exact agrees_pure

theorem agrees_planMove {plan : Moves} {owner : ElementId} : Agrees (planMove plan i owner) d := by
  unfold planMove
  split
  · exact agrees_hierarchy.bind fun _ _ _ =>
      (agrees_notice (by simp [Notice.kind])).bind fun _ _ _ => agrees_pure
  · exact agrees_pure

theorem agrees_planMoves {accept : Kind → Bool} {plan : Moves} :
    Agrees (planMoves accept plan is) d := by
  induction is generalizing plan d with
  | nil => exact agrees_pure
  | cons i is ih =>
    refine agrees_newOwner?.bind fun o _ _ => ?_
    split
    · exact agrees_planMove.bind fun _ _ _ => ih
    · exact ih

theorem agrees_nestTypes : Agrees nestTypes d :=
  agrees_hierarchy.bind fun _ _ _ => agrees_planMoves.bind fun _ _ _ =>
    agrees_onHierarchy.bind fun _ _ _ => agrees_forM_of_forall fun _ _ => agrees_edit

/-- Whether a list of elements can be named one after the other: none has an entry under a managed
name. -/
structure Unnamed (is : List ElementId) (d : Draft) : Prop where
  sound : d.Sound
  tidy : d.Tidy
  nodup : is.Nodup
  lt_size : ∀ i ∈ is, i < d.hierarchy.size
  lacks : ∀ i ∈ is, d.registry.Lacks .managed i

theorem tidy_managedAs (managed full : String) (hs : d.Sound) (hd : d.Tidy)
    (hl : d.registry.Lacks .managed i) :
    ({ d with hierarchy := d.hierarchy.modify i (managedAs managed full) } : Draft).Tidy := by
  refine hd.edit hs.points fun j _ u => ?_
  by_cases hj : j = i
  · subst hj
    cases u with
    | native => exact .inl (Hierarchy.congr_element_modify Element.fullName fun _ => rfl)
    | managed => exact .inr hl
  · exact .inl (by rw [Hierarchy.element_modify_of_ne hj])

theorem agrees_assignManagedName (hs : d.Sound) (hd : d.Tidy) (hl : d.registry.Lacks .managed i) :
    Agrees (assignManagedName t i) d := by
  refine agrees_hierarchy.bind fun h d₁ hh => agrees_ofExcept.bind fun managed d₂ hof =>
    agrees_editElement.bind fun _ d₃ hedit => ?_
  obtain ⟨rfl, rfl⟩ := hierarchy_ok.1 hh
  obtain ⟨-, rfl⟩ := ofExcept_ok.1 hof
  obtain rfl := editElement_ok.1 hedit
  split
  · exact agrees_addManaged (tidy_managedAs _ _ hs hd hl)
  · exact agrees_pure

theorem Unnamed.assign (hu : Unnamed (i :: is) d) (hd : assignManagedName t i d = .ok () d') :
    Unnamed is d' := by
  obtain ⟨hi, hnodup⟩ := List.nodup_cons.1 hu.nodup
  have hsound := sound_of_assign hu.sound (hu.lt_size i List.mem_cons_self) hd
  have hsize := (namedOver_of_assign hd).size
  obtain ⟨managed, r, -, rfl, hr⟩ := assignManagedName_ok hd
  have htidy := tidy_managedAs managed (fullManagedNameOf d.hierarchy i managed) hu.sound hu.tidy
    (hu.lacks i List.mem_cons_self)
  have hlt : ∀ j ∈ is, j < _ := fun j hj =>
    hsize.symm ▸ hu.lt_size j (List.mem_cons_of_mem _ hj)
  rcases hr with ⟨-, hr⟩ | ⟨-, rfl⟩
  · refine ⟨hsound, htidy.addManaged hr, hnodup, hlt, fun j hj => ?_⟩
    have hlacks := hu.lacks j (List.mem_cons_of_mem _ hj)
    unfold Registry.addManaged at hr
    split at hr
    · cases hr
      exact hlacks
    · refine hlacks.of_insert hr ?_
      rintro rfl
      exact hi hj
  · exact ⟨hsound, htidy, hnodup, hlt, fun j hj => hu.lacks j (List.mem_cons_of_mem _ hj)⟩

theorem agrees_forM_assign (hu : Unnamed is d) : Agrees (is.forM (assignManagedName t)) d :=
  agrees_forM (I := Unnamed)
    (fun _ _ _ hu => agrees_assignManagedName hu.sound hu.tidy (hu.lacks _ List.mem_cons_self))
    (fun _ _ _ _ => Unnamed.assign) hu

theorem unnamed_of_forM (hu : Unnamed is d) (hd : is.forM (assignManagedName t) d = .ok () d') :
    Unnamed [] d' :=
  forM_ok (I := Unnamed) (fun _ _ _ _ => Unnamed.assign) hu hd

/-! ### Renaming enums -/

section WithoutNames
variable {x : Element}

theorem log_withoutNames : (withoutNames r i x).log = r.log := by
  unfold withoutNames
  cases x.fullManagedName <;> rfl

theorem policy_withoutNames : (withoutNames r i x).index.policy = r.index.policy := by
  unfold withoutNames
  cases x.fullManagedName with
  | some managed => exact policy_remove.trans policy_remove
  | none => exact policy_remove

theorem withoutNames_strict : withoutNames r.strict i x = (withoutNames r i x).strict := by
  unfold withoutNames
  cases x.fullManagedName with
  | some managed => simp only [remove_strict]
  | none => simp only [remove_strict]

theorem clean_of_withoutNames (hc : (withoutNames r i x).Clean) : r.Clean :=
  ⟨policy_withoutNames.symm.trans hc.policy, log_withoutNames (r := r) ▸ hc.quiet⟩

end WithoutNames

/-- With the entries under its names all entries of an element are gone. -/
theorem lacks_withoutNames (hd : d.Tidy) :
    (withoutNames d.registry i (d.hierarchy.element i)).Lacks u i := by
  rintro hc k e he rfl
  obtain ⟨hne, hname⟩ := hd (clean_of_withoutNames hc) (within_withoutNames he)
  unfold withoutNames at he
  cases u with
  | native =>
    have hkey : k = (d.hierarchy.element e.id).fullName := hname
    have hold : ((d.registry.remove .native k e.id (d.hierarchy.element e.id)).1.index.table
        .native).get? k = some e := by
      rw [hkey] at he ⊢
      cases hm : (d.hierarchy.element e.id).fullManagedName with
      | some managed =>
        simp only [hm] at he
        exact Index.get?_of_get?_remove he
      | none =>
        simp only [hm] at he
        exact he
    exact Index.ne_of_get?_remove hold rfl
  | managed =>
    have hkey : k = (d.hierarchy.element e.id).fullManagedText := hname
    cases hm : (d.hierarchy.element e.id).fullManagedName with
    | some managed =>
      have hmanaged : k = managed := by rw [hkey, Element.fullManagedText, hm, Option.getD_some]
      subst hmanaged
      simp only [hm] at he
      exact Index.ne_of_get?_remove he rfl
    | none => exact hne (by rw [hkey, Element.fullManagedText, hm, Option.getD_none])

section Rename
variable (hs : d.Sound) (hd : d.Tidy)
include hs hd

theorem tidy_fullyNamed : (⟨fullyNamed d.hierarchy i,
    withoutNames d.registry i (d.hierarchy.element i)⟩ : Draft).Tidy := by
  have hwithin := hd.within (r := withoutNames d.registry i (d.hierarchy.element i))
    within_withoutNames clean_of_withoutNames
  refine hwithin.edit (within_withoutNames.points hs.points) fun j _ u => ?_
  by_cases hj : j = i
  · subst hj
    exact .inr (lacks_withoutNames hd)
  · exact .inl (by rw [fullyNamed, Hierarchy.element_modify_of_ne hj])

/-- An enum that has been entered anew, and all below it, can be named. -/
theorem unnamed_of_addNative (hi : d.hierarchy.owner i ≠ .detached)
    (hk : d.hierarchy.kind i = .enum) {u : Unit}
    (hadd : addNative i ⟨fullyNamed d.hierarchy i,
      withoutNames d.registry i (d.hierarchy.element i)⟩ = .ok u d') :
    d'.hierarchy = fullyNamed d.hierarchy i ∧
      Unnamed ((fullyNamed d.hierarchy i).walk i) d' := by
  have hlt : i < d.hierarchy.size := Hierarchy.lt_size_of_owner_ne hi
  have hsame := samePlaces_fullyNamed (h := d.hierarchy) (i := i)
  have ho : (fullyNamed d.hierarchy i).Orderly := hsame.orderly hs.orderly
  have hpoints := within_withoutNames (i := i) (x := d.hierarchy.element i) |>.points
    (hs.same hsame).points
  obtain ⟨r, hr, rfl⟩ := addNative_ok.1 hadd
  have hkind : ((fullyNamed d.hierarchy i).element i).kind = .enum := by
    rw [← Hierarchy.kind, hsame.kind, hk]
  have hpoints' : r.index.PointsInto (fullyNamed d.hierarchy i) :=
    hpoints.addNative (hsame.size ▸ hlt) rfl (.inl (by rw [Element.isType, hkind]; rfl)) hr
  refine ⟨rfl, ⟨ho, hpoints'⟩, (tidy_fullyNamed hs hd).addNative hr,
    Hierarchy.WellFormed.nodup_of_pairwise (ho.pairwise_walk i),
    fun _ => ho.lt_size_of_mem_walk (hsame.size ▸ hlt), fun j hj => ?_⟩
  · rcases (mem_walk_fullyNamed hs.orderly hlt).1 hj with rfl | ha
    · exact (lacks_withoutNames hd).of_insert_other (by simp) hr
    · -- What stands below an enum has no entries at all.
      rintro - k e he rfl
      have hbelow := belowEnum_of_above hs.orderly hk ha
      obtain ⟨-, hke, htype⟩ := hpoints' he
      rw [hsame.kind] at hke
      rw [hke] at hbelow
      revert hbelow htype
      cases e.kind <;> simp [Kind.belowEnum, Kind.isType]

theorem agrees_renameEnum (hi : d.hierarchy.owner i ≠ .detached)
    (hk : d.hierarchy.kind i = .enum) : Agrees (renameEnum t i) d := by
  have hnamed : Agrees (do
      addNative i
      assignManagedNamesFrom t i) ⟨fullyNamed d.hierarchy i,
        withoutNames d.registry i (d.hierarchy.element i)⟩ := by
    refine (agrees_addNative (tidy_fullyNamed hs hd)).bind fun _ d₁ hadd => ?_
    obtain ⟨hh, hu⟩ := unnamed_of_addNative hs hd hi hk hadd
    refine agrees_hierarchy.bind fun h d₂ hrun => ?_
    obtain ⟨rfl, rfl⟩ := hierarchy_ok.1 hrun
    rw [hh]
    exact agrees_forM_assign hu
  refine hnamed.congr log_withoutNames policy_withoutNames renameEnum_run ?_
  rw [renameEnum_run]
  change (do addNative i; assignManagedNamesFrom t i) ⟨_, withoutNames d.registry.strict i _⟩ = _
  rw [withoutNames_strict]
  rfl

theorem tidy_of_rename (hi : d.hierarchy.owner i ≠ .detached) (hk : d.hierarchy.kind i = .enum)
    (hrun : renameEnum t i d = .ok () d') : d'.Tidy := by
  rw [renameEnum_run] at hrun
  obtain ⟨_, d₁, hadd, hrest⟩ := bind_ok.1 hrun
  obtain ⟨hh, hu⟩ := unnamed_of_addNative hs hd hi hk hadd
  obtain ⟨_, _, hplaces, hnames⟩ := bind_ok.1 hrest
  obtain ⟨rfl, rfl⟩ := hierarchy_ok.1 hplaces
  rw [hh] at hnames
  exact (unnamed_of_forM hu hnames).tidy

end Rename

/-- A draft in which the enums of a list are about to be renamed. -/
structure Renaming (is : List ElementId) (d : Draft) : Prop where
  sound : d.Sound
  tidy : d.Tidy
  renamable : Renamable is d.hierarchy

theorem Renaming.agrees (hr : Renaming (i :: is) d) : Agrees (renameEnum t i) d :=
  agrees_renameEnum hr.sound hr.tidy (hr.renamable.attached List.mem_cons_self)
    (hr.renamable.enum i List.mem_cons_self)

theorem Renaming.rename (hr : Renaming (i :: is) d) (hrun : renameEnum t i d = .ok () d') :
    Renaming is d' := by
  have hatt := hr.renamable.attached List.mem_cons_self
  have hk := hr.renamable.enum i List.mem_cons_self
  exact ⟨sound_of_rename hr.sound hatt hk hrun, tidy_of_rename hr.sound hr.tidy hatt hk hrun,
    hr.renamable.tail (renamedOver_of_rename (Hierarchy.lt_size_of_owner_ne hatt) hrun).toSamePlaces⟩

theorem renaming_of_moves {m : Moves} {keys : List ElementId} {d₁ d₂ : Draft} (hs : d.Sound)
    (hd : d.Tidy) (hplan : planMoves ownsEnums {} d.hierarchy.rootEnums d = .ok m d₁)
    (hwork : onHierarchy m.apply d₁ = .ok keys d₂) : Renaming keys d₂ := by
  obtain ⟨rfl, -, hentries⟩ := planMoves_ok (nodup_rootEnums hs) (fun _ _ => rfl) hplan
  obtain ⟨h₁, happly, rfl⟩ := onHierarchy_ok.1 hwork
  obtain ⟨hmade, rfl⟩ := Moves.apply_ok.1 happly
  change m.entries = nestMoves ownsEnums d₁ d₁.hierarchy.rootEnums at hentries
  rw [hentries] at hmade
  rw [KeyedList.keys, hentries]
  have hsame := Moves.sameElements_makeAll hmade
  refine ⟨hs.extend (orderly_of_enumMoves hs hmade) (Nat.le_of_eq hsame.size.symm)
    fun _ _ => by rw [hsame.kind], ?_, renamable_of_enumMoves hs hmade⟩
  exact hd.edit hs.points fun _ _ _ => .inl (by rw [hsame.element])

theorem agrees_nestEnums (hs : d.Sound) (hd : d.Tidy) : Agrees (nestEnums t) d := by
  refine agrees_hierarchy.bind fun h d₁ hh => agrees_planMoves.bind fun m d₂ hplan =>
    agrees_onHierarchy.bind fun keys d₃ hwork => ?_
  obtain ⟨rfl, rfl⟩ := hierarchy_ok.1 hh
  exact agrees_forM (I := Renaming) (fun _ _ _ => Renaming.agrees) (fun _ _ _ _ => Renaming.rename)
    (renaming_of_moves hs hd hplan hwork)

theorem tidy_of_nestEnums (hs : d.Sound) (hd : d.Tidy) (hrun : nestEnums t d = .ok () d') :
    d'.Sound ∧ d'.Tidy := by
  obtain ⟨_, _, hh, hplans⟩ := bind_ok.1 hrun
  obtain ⟨rfl, rfl⟩ := hierarchy_ok.1 hh
  obtain ⟨m, d₁, hplan, hmoves⟩ := bind_ok.1 hplans
  obtain ⟨keys, d₂, hwork, hrename⟩ := bind_ok.1 hmoves
  have hr := forM_ok (I := Renaming) (fun _ _ _ _ => Renaming.rename)
    (renaming_of_moves hs hd hplan hwork) hrename
  exact ⟨hr.sound, hr.tidy⟩

/-! ### Invokers -/

/-- A fresh invoker can be named. -/
theorem unnamed_besideInterface (hs : d.Sound) (hd : d.Tidy) (hi : d.hierarchy.owner i = .element q)
    (hk : d.hierarchy.kind i = .iface) : Unnamed [d.hierarchy.size]
      { d with hierarchy := besideInterface p d.hierarchy q i } := by
  refine ⟨sound_besideInterface p hs hi hk,
    hd.fresh hs.points .putBelow, List.nodup_singleton _, fun j hj => ?_, fun j hj => ?_⟩
  · obtain rfl := List.mem_singleton.1 hj
    simp [besideInterface]
  · obtain rfl := List.mem_singleton.1 hj
    exact hs.lacks (Nat.le_refl _)

theorem agrees_makeInvoker (hs : d.Sound) (hd : d.Tidy) (hk : d.hierarchy.kind i = .iface) :
    Agrees (makeInvoker p i) d := by
  refine agrees_hierarchy.bind fun h d₁ hh => ?_
  obtain ⟨rfl, rfl⟩ := hierarchy_ok.1 hh
  split
  next q hi =>
    refine agrees_make.bind fun id d₂ hmake => agrees_addMember.bind fun _ d₃ hadd => ?_
    obtain ⟨rfl, rfl⟩ := make_ok.1 hmake
    obtain ⟨-, -, rfl⟩ := addMember_ok.1 hadd
    have hu := unnamed_besideInterface (p := p) hs hd hi hk
    refine (agrees_assignManagedName hu.sound hu.tidy (hu.lacks _ List.mem_cons_self)).bind
      fun _ d₄ hassign => ?_
    exact (agrees_addNative (hu.assign hassign).tidy).bind fun _ _ _ => agrees_editElement
  next => exact agrees_fail

theorem tidy_of_makeInvoker (hs : d.Sound) (hd : d.Tidy) (hk : d.hierarchy.kind i = .iface)
    (hrun : makeInvoker p i d = .ok () d') : d'.Tidy := by
  obtain ⟨q, d₁, r, hi, hassign, hr, rfl⟩ := makeInvoker_ok hrun
  have hu := (unnamed_besideInterface hs hd hi hk).assign hassign
  have hsize : d.hierarchy.size < d₁.hierarchy.size := by
    rw [(namedOver_of_assign hassign).size]
    simp [besideInterface]
  have hpoints : r.index.PointsInto d₁.hierarchy := by
    refine hu.sound.points.addNative hsize rfl (.inl ?_) hr
    rw [Element.isType, ← Hierarchy.kind, (namedOver_of_assign hassign).kind, Hierarchy.kind,
      besideInterface, Hierarchy.element_putBelow, if_pos rfl]
    rfl
  exact Draft.Tidy.modify (d := { d₁ with registry := r }) (hu.tidy.addNative hr) hpoints
    (Table.nameOf_withFacts _)

theorem agrees_makeInvokers (hs : d.Sound) (hd : d.Tidy) : Agrees (makeInvokers p) d := by
  refine agrees_hierarchy.bind fun h d₁ hh => ?_
  obtain ⟨rfl, rfl⟩ := hierarchy_ok.1 hh
  refine agrees_forM (I := fun is d => d.Sound ∧ d.Tidy ∧ Callable is d.hierarchy) ?_ ?_
    ⟨hs, hd, callable_of_lacking hs.orderly⟩
  · rintro i is d ⟨hs, hd, hc⟩
    exact agrees_makeInvoker hs hd (hc i List.mem_cons_self).2
  · rintro i is d d' ⟨hs, hd, hc⟩ hrun
    have hk := (hc i List.mem_cons_self).2
    obtain ⟨hs', hmade⟩ := invokersMade_of_make hs hk hrun
    exact ⟨hs', tidy_of_makeInvoker hs hd hk hrun, hc.tail hmade⟩

/-! ### Base types and markers -/

theorem agrees_findBases {x : Element} {found : List ElementId} {names : List String} :
    Agrees (findBases i x found names) d := by
  induction names generalizing found d with
  | nil => exact agrees_pure
  | cons name names ih => exact agrees_lookup.bind fun _ _ _ => ih

theorem agrees_defaultBase {x : Element} : Agrees (defaultBase s i x) d := by
  unfold defaultBase
  split
  · exact agrees_lookup.bind fun _ _ _ => agrees_pure
  · exact agrees_lookup.bind fun _ _ _ => agrees_pure

theorem agrees_resolveBases : Agrees (resolveBases s i) d := by
  refine agrees_element.bind fun x _ _ => ?_
  split
  · exact agrees_pure
  · split
    · exact agrees_pure
    · refine agrees_findBases.bind fun found _ _ => ?_
      split
      · exact agrees_defaultBase.bind fun _ _ _ => agrees_editElement
      · exact agrees_pure.bind fun _ _ _ => agrees_editElement

theorem agrees_resolveBaseTypes : Agrees (resolveBaseTypes s) d :=
  agrees_hierarchy.bind fun _ _ _ => (agrees_forM_of_forall fun _ _ => agrees_resolveBases).bind
    fun _ _ _ => agrees_hierarchy.bind fun _ _ _ => agrees_edit

/-! ### The whole build -/

/-- No element has a managed name. -/
def Nameless (h : Hierarchy) : Prop := ∀ i, (h.element i).fullManagedName = none

theorem nameless_of_intake (hst : Intake heads d d') (hn : Nameless d.hierarchy) :
    Nameless d'.hierarchy := by
  refine hst.forall_element (P := fun x => x.fullManagedName = none) (fun _ _ _ _ _ _ => rfl)
    (fun _ _ hx => hx) (fun f x hx => ?_) hn
  unfold Element.withFacts
  split <;> exact hx

theorem nameless_of_support (hst : Support s d d') (hn : Nameless d.hierarchy) :
    Nameless d'.hierarchy :=
  hst.forall_element (P := fun x => x.fullManagedName = none) (fun _ => rfl)
    (fun _ _ _ _ => rfl) (fun _ _ hx => hx) hn

theorem agrees_passes (p : Plan) (rs : List Record) : Agrees (p.passes rs) p.blank := by
  have htidy : p.blank.Tidy := by
    intro _ u k e he
    cases u <;> cases he
  have hnone : Nameless p.blank.hierarchy := fun i => by
    rw [Hierarchy.element, Hierarchy.node_of_size_le (Nat.zero_le i)]
    rfl
  have hinvoker : NoInvoker p.blank.hierarchy := fun i hk => by
    rw [Hierarchy.kind, Hierarchy.element, Hierarchy.node_of_size_le (Nat.zero_le i)] at hk
    cases hk
  refine (agrees_ingest sound_blank htidy).bind fun _ d₁ hingest => ?_
  have hintake := intake_of_ingest hingest
  obtain ⟨hs₁, hd₁⟩ := sound_blank.induction Intake.sound tidy_of_intake hintake htidy
  have hn₁ := (sound_blank.induction Intake.sound (fun h _ => nameless_of_intake h) hintake hnone).2
  have hi₁ := (sound_blank.induction Intake.sound (fun h _ => noInvoker_of_intake h) hintake
    hinvoker).2
  refine (agrees_bootstrap hs₁ hd₁).bind fun _ d₂ hbootstrap => ?_
  have hsupport := bootstrap_ok hs₁ hbootstrap
  obtain ⟨hs₂, hd₂⟩ := tidy_of_supports hsupport hs₁ hd₁
  have hn₂ := (hs₁.induction Support.sound (fun h _ => nameless_of_support h) hsupport hn₁).2
  have hi₂ := (hs₁.induction Support.sound (fun h _ => noInvoker_of_support h) hsupport hi₁).2
  refine agrees_nestTypes.bind fun _ d₃ htypes => ?_
  obtain ⟨-, h₃, rfl, hnested⟩ := nestTypes_ok hs₂ hi₂ htypes
  have hs₃ : ({ d₂ with hierarchy := h₃ } : Draft).Sound :=
    hs₂.extend hnested.orderly (Nat.le_of_eq hnested.size.symm) fun _ _ => hnested.kind
  have hnative : ∀ j, ∃ name, h₃.element j = { d₂.hierarchy.element j with name } := hnested.named
  have hd₃ : ({ d₂ with hierarchy := h₃ } : Draft).Tidy := by
    refine hd₂.edit hs₂.points fun j _ u => .inl ?_
    obtain ⟨name, hname⟩ := hnative j
    rw [hname]
    cases u <;> rfl
  -- Without managed names there are no managed entries.
  have hu₃ : Unnamed h₃.walkAll { d₂ with hierarchy := h₃ } := by
    refine ⟨hs₃, hd₃, hs₃.orderly.nodup_walkAll, fun _ => hs₃.orderly.lt_size_of_mem_walkAll,
      fun j _ => ?_⟩
    rintro hc k e he rfl
    obtain ⟨hne, hk⟩ := hd₂ hc he
    refine hne (hk.trans ?_)
    change (d₂.hierarchy.element e.id).fullManagedText = ""
    rw [Element.fullManagedText, hn₂, Option.getD_none]
  refine (agrees_hierarchy.bind fun h d hh => ?_ : Agrees (assignManagedNames _) _).bind
    fun _ d₄ hassign => ?_
  · obtain ⟨rfl, rfl⟩ := hierarchy_ok.1 hh
    exact agrees_forM_assign hu₃
  obtain ⟨_, _, hh, hnames⟩ := bind_ok.1 hassign
  obtain ⟨rfl, rfl⟩ := hierarchy_ok.1 hh
  have hu₄ := unnamed_of_forM hu₃ hnames
  refine (agrees_nestEnums hu₄.sound hu₄.tidy).bind fun _ d₅ henums => ?_
  obtain ⟨hs₅, hd₅⟩ := tidy_of_nestEnums hu₄.sound hu₄.tidy henums
  exact (agrees_makeInvokers hs₅ hd₅).bind fun _ _ _ =>
    agrees_resolveBaseTypes.bind fun _ _ _ => agrees_edit

end Build

open Build

/-- The same plan under a policy for clashes. -/
def Plan.under (p : Plan) (policy : ClashPolicy) : Plan :=
  { p with settings := { p.settings with policy } }

/-- What is noticed before the first clash is settled by the log. -/
theorem firstClash_unique {before before' after after' : List Notice} {c c' : Clash}
    (h : before ++ .clash c :: after = before' ++ .clash c' :: after') (hq : Quiet before)
    (hq' : Quiet before') : before = before' ∧ c = c' := by
  induction before generalizing before' with
  | nil =>
    cases before' with
    | nil => exact ⟨rfl, Notice.clash.inj (List.cons.inj h).1⟩
    | cons n ns =>
      have hn : n = .clash c := (List.cons.inj h).1.symm
      exact absurd rfl (hn ▸ hq' n List.mem_cons_self)
  | cons n ns ih =>
    cases before' with
    | nil =>
      have hn : n = .clash c' := (List.cons.inj h).1
      exact absurd rfl (hn ▸ hq n List.mem_cons_self)
    | cons n' ns' =>
      obtain ⟨rfl, hrest⟩ := List.cons.inj h
      obtain ⟨rfl, rfl⟩ := ih hrest (fun k hk => hq k (List.mem_cons_of_mem _ hk))
        (fun k hk => hq' k (List.mem_cons_of_mem _ hk))
      exact ⟨rfl, rfl⟩

/-- Only what enters elements into the index depends on the policy. -/
theorem passes_under (p : Plan) (policy policy' : ClashPolicy) (rs : List Record) :
    (p.under policy).passes rs = (p.under policy').passes rs := rfl

theorem blank_strict (p : Plan) : (p.under .rekey).blank.strict = (p.under .strict).blank := rfl

/-- Without a clash the two policies report the same; otherwise the strict build fails with the first
clash that the other one reports, after noticing what the other one did before it. -/
theorem build_strict (p : Plan) (rs : List Record) :
    (Quiet ((p.under .rekey).build rs).notices →
        (p.under .strict).build rs = (p.under .rekey).build rs) ∧
      ∀ (before after : List Notice) (c : Clash),
        ((p.under .rekey).build rs).notices = before ++ .clash c :: after → Quiet before →
          (p.under .strict).build rs = ⟨.error (.duplicate c), before⟩ := by
  by_cases hempty : rs.isEmpty = true
  · simp [Plan.build, hempty]
  have hclean : (p.under .rekey).blank.registry.Clean := ⟨rfl, fun _ hn => by cases hn⟩
  have hbeside := (agrees_passes (p.under .rekey) rs).beside hclean
  rw [blank_strict, passes_under p .rekey .strict rs] at hbeside
  have hnotices : ((p.under .rekey).build rs).notices =
      (ending ((p.under .strict).passes rs (p.under .rekey).blank)).registry.log := by
    rw [Plan.build, if_neg hempty, passes_under p .rekey .strict rs]
    cases (p.under .strict).passes rs (p.under .rekey).blank <;> rfl
  rw [hnotices]
  rw [Plan.build, Plan.build, if_neg hempty, if_neg hempty, passes_under p .rekey .strict rs]
  generalize (p.under .strict).passes rs (p.under .strict).blank = strict at hbeside ⊢
  generalize (p.under .strict).passes rs (p.under .rekey).blank = rekey at hbeside ⊢
  cases hbeside with
  | same hc =>
    refine ⟨fun _ => ?_, fun before after c hlog _ => ?_⟩
    · cases rekey <;> rfl
    · exact absurd rfl (hc.quiet (.clash c) (by simp [hlog]))
  | @clash c d after hq hlog =>
    refine ⟨fun hquiet => ?_, fun before after' c' hlog' hq' => ?_⟩
    · exact absurd rfl (hquiet (.clash c) (by simp [hlog]))
    · obtain ⟨rfl, rfl⟩ := firstClash_unique (hlog'.symm.trans hlog) hq' hq
      rfl

/-- A class under the full name of a namespace. -/
def clashingRecords : List Record :=
  [.plain (.ns {}) "a" [.plain (.field {}) "lost" [], .plain (.cls {}) "B" []],
    .plain (.ns {}) "a.B" []]

theorem build_strict_of_samples :
    (samplePlan.under .strict).build sampleRecords = (samplePlan.under .rekey).build sampleRecords ∧
      ∃ n, n.kind = .unsupportedKind ∧ (samplePlan.under .strict).build clashingRecords =
        ⟨.error (.duplicate ⟨"a.B", .native, .cls, .ns⟩), [n]⟩ := by
  constructor
  · refine (build_strict samplePlan sampleRecords).1 ?_
    unfold Quiet
    decide +kernel
  · have hlog : ((samplePlan.under .rekey).build clashingRecords).notices.take 2 =
        [.unsupported "lost" .field (.under .ns "a"), .clash ⟨"a.B", .native, .cls, .ns⟩] := by
      decide +kernel
    have hnotices := (List.take_append_drop 2
      ((samplePlan.under .rekey).build clashingRecords).notices).symm
    rw [hlog] at hnotices
    refine ⟨.unsupported "lost" .field (.under .ns "a"), rfl,
      (build_strict samplePlan clashingRecords).2 [_] _ _ hnotices fun k hk => ?_⟩
    rw [List.mem_singleton.1 hk]
    decide

end BindingTree

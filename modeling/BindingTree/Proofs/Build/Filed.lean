import BindingTree.Proofs.Build.BaseTypes
import BindingTree.Proofs.Build.Gathered
import BindingTree.Proofs.Build.StrictPolicy

/-! Under which keys the index keeps elements. An entry stands under the full name that its element has
at that time, plain or, under the policy of new keys, with its kind in front; so what a name leads to
is called by that name. Then an element has no entry left once those under its names are removed, as
they are before an enum is renamed. -/

namespace BindingTree

open Build

/-- Whether a policy lets an element of a kind and with a name stand under a key. -/
def ClashPolicy.Keeps (policy : ClashPolicy) (k : Kind) (name key : String) : Prop :=
  key = name ∨ policy = .rekey ∧ key = k.keyed name

/-- Every entry stands under the name of its element. -/
def Draft.Filed (d : Draft) : Prop :=
  ∀ ⦃u : Table⦄ ⦃k : String⦄ ⦃e : Entry⦄, (d.registry.index.table u).get? k = some e →
    u.nameOf (d.hierarchy.element e.id) ≠ "" ∧
      d.registry.index.policy.Keeps e.kind (u.nameOf (d.hierarchy.element e.id)) k

/-- A table has no entry of an element. -/
def Index.Lacks (ix : Index) (u : Table) (i : ElementId) : Prop :=
  ∀ ⦃k : String⦄ ⦃e : Entry⦄, (ix.table u).get? k = some e → e.id ≠ i

variable {p : Plan} {rs : List Record} {d d' d₁ d₂ d₃ d₄ d₅ d₆ : Draft} {r r' : Registry}
  {ix : Index} {i b : ElementId} {u v : Table} {key k name : String} {hint : Kind}
  {entry e : Entry}

/-! ### Entries -/

/-- After an element is entered, an entry is an old one or stands under a key that is allowed. -/
theorem Registry.keeps_of_insert (hr : Registry.insert u key entry r = .ok () r')
    (he : (r'.index.table v).get? k = some e) :
    (r.index.table v).get? k = some e ∨
      v = u ∧ e = entry ∧ r.index.policy.Keeps entry.kind key k := by
  rcases Registry.get?_of_insert hr he with hold | ⟨rfl, rfl, ⟨rfl, -⟩ | rfl⟩
  · exact .inl hold
  · exact .inr ⟨rfl, rfl, .inl rfl⟩
  · obtain ⟨-, ⟨-, rfl⟩ | ⟨_, -, hpolicy, -⟩⟩ := Registry.insert_cases hr
    · rw [Index.table_setTable, if_pos rfl, KeyedList.get?_put, if_neg (Index.keyed_ne _ _)] at he
      exact .inl he
    · exact .inr ⟨rfl, rfl, .inr ⟨hpolicy, rfl⟩⟩

theorem Index.Lacks.of_insert (hl : r.index.Lacks u i)
    (hr : Registry.insert v key entry r = .ok () r') (hne : u = v → entry.id ≠ i) :
    r'.index.Lacks u i := by
  intro k e he
  rcases Registry.get?_of_insert hr he with hold | ⟨rfl, rfl, -⟩
  · exact hl hold
  · exact hne rfl

theorem Draft.Filed.enter (hd : d.Filed) (hr : Registry.insert u key entry d.registry = .ok () r)
    (hkey : key = u.nameOf (d.hierarchy.element entry.id)) :
    ({ d with registry := r } : Draft).Filed := by
  intro v k e he
  change _ ∧ r.index.policy.Keeps _ _ _
  rw [Registry.policy_of_insert hr]
  rcases Registry.keeps_of_insert hr he with hold | ⟨rfl, rfl, hkeeps⟩
  · exact hd hold
  · exact ⟨hkey ▸ (Registry.insert_cases hr).1, hkey ▸ hkeeps⟩

/-! ### What a name leads to -/

theorem Index.key_of_lookupIn {es : Entries} (he : Index.lookupIn es name (some hint) = some e) :
    es.get? name = some e ∨ es.get? (hint.keyed name) = some e := by
  unfold Index.lookupIn at he
  dsimp only at he
  split at he
  · exact .inl he
  · rw [Option.or_eq_some_iff] at he
    exact he.symm.imp_left And.right

/-- A name that is looked for is, plain or with the kind that is asked for, a key of what it leads
to. -/
theorem Index.key_of_find? (hb : ix.find? name hint = some b) :
    ∃ (u : Table) (key : String) (e : Entry), (key = name ∨ key = hint.keyed name) ∧
      (ix.table u).get? key = some e ∧ e.id = b := by
  obtain ⟨e, he, rfl⟩ := Option.map_eq_some_iff.1 hb
  rw [Index.lookup?, Option.or_eq_some_iff] at he
  have hkey : ∀ u : Table, Index.lookupIn (ix.table u) name (some hint) = some e →
      ∃ (u : Table) (key : String) (x : Entry), (key = name ∨ key = hint.keyed name) ∧
        (ix.table u).get? key = some x ∧ x.id = e.id := by
    intro u hu
    rcases Index.key_of_lookupIn hu with hplain | hkeyed
    · exact ⟨u, _, e, .inl rfl, hplain, rfl⟩
    · exact ⟨u, _, e, .inr rfl, hkeyed, rfl⟩
  rcases he with hnative | ⟨-, hmanaged⟩
  · exact hkey .native hnative
  · exact hkey .managed hmanaged

/-- Whether an element may be what a name leads to when a kind is asked for. It is called by that
name, or by the key for that kind and the name, or the name is the key for its own kind and what it
is called. -/
def Element.AnswersTo (x : Element) (policy : ClashPolicy) (name : String) (hint : Kind) : Prop :=
  ∃ u : Table, u.nameOf x = name ∨ u.nameOf x = hint.keyed name ∨
    policy = .rekey ∧ name = x.kind.keyed (u.nameOf x)

theorem Element.AnswersTo.congr {x x' : Element} {policy : ClashPolicy}
    (ha : x.AnswersTo policy name hint) (hn : x'.native = x.native) (hm : x'.managed = x.managed) :
    x'.AnswersTo policy name hint := by
  have hkind : x'.kind = x.kind := congrArg Prod.fst hn
  have hname : ∀ u : Table, u.nameOf x' = u.nameOf x := by
    intro u
    cases u with
    | native => exact congrArg (fun n : Kind × String × String × Bool => n.2.2.1) hn
    | managed =>
      exact congrArg (fun n : Option String × Option String × Option String => n.2.1.getD "") hm
  obtain ⟨u, hu⟩ := ha
  exact ⟨u, by rwa [hname, hkind]⟩

theorem Draft.Filed.of_find? (hd : d.Filed) (hs : d.Sound)
    (hb : d.registry.index.find? name hint = some b) :
    (d.hierarchy.element b).AnswersTo d.registry.index.policy name hint := by
  obtain ⟨u, key, e, hkey, he, rfl⟩ := Index.key_of_find? hb
  refine ⟨u, ?_⟩
  obtain ⟨-, hname | ⟨hpolicy, hname⟩⟩ := hd he
  · rcases hkey with rfl | rfl
    · exact .inl hname.symm
    · exact .inr (.inl hname.symm)
  · have hkind : (d.hierarchy.element e.id).kind = e.kind := (hs.points he).2.1
    rw [hkind]
    rcases hkey with rfl | rfl
    · exact .inr (.inr ⟨hpolicy, hname⟩)
    · exact .inl (Index.keyed_inj.1 hname).2.symm

/-! ### Renaming and the policy -/

/-- With the entries under its names all entries of an element are gone. -/
theorem Build.lacks_of_withoutNames (hs : d.Sound) (hd : d.Filed) :
    (withoutNames d.registry i (d.hierarchy.element i)).index.Lacks u i := by
  rintro k e he rfl
  have hold := within_withoutNames he
  obtain ⟨hne, hkeeps⟩ := hd hold
  have hkind : (d.hierarchy.element e.id).kind = e.kind := (hs.points hold).2.1
  -- Under either key an entry of the element would have been removed.
  have hgone : ∀ {r : Registry} {key : String}, (k = key ∨ k = e.kind.keyed key) →
      ((r.remove u key e.id (d.hierarchy.element e.id)).1.index.table u).get? k ≠ some e := by
    rintro r key (rfl | rfl) hget
    · exact Index.ne_of_get?_remove hget rfl
    · rw [← hkind] at hget
      exact Index.ne_of_get?_remove_keyed hget rfl
  have hkey : k = u.nameOf (d.hierarchy.element e.id) ∨
      k = e.kind.keyed (u.nameOf (d.hierarchy.element e.id)) := hkeeps.imp_right And.right
  unfold withoutNames at he
  cases u with
  | native =>
    refine hgone (r := d.registry) hkey ?_
    cases hm : (d.hierarchy.element e.id).fullManagedName with
    | some managed =>
      simp only [hm] at he
      exact Index.get?_of_get?_remove he
    | none =>
      simp only [hm] at he
      exact he
  | managed =>
    cases hm : (d.hierarchy.element e.id).fullManagedName with
    | some managed =>
      simp only [hm] at he
      refine hgone ?_ he
      rwa [Table.nameOf, Element.fullManagedText, hm] at hkey
    | none =>
      refine hne ?_
      rw [Table.nameOf, Element.fullManagedText, hm, Option.getD_none]

/-- The policy for clashes is that of the settings throughout. -/
theorem Stages.policy_called (hst : Stages p rs d₁ d₂ d₃ d₄ d₅ d₆ d') :
    d₆.registry.index.policy = p.settings.policy := by
  have hbootstrap : Leads True (bootstrap p.settings) := leads_bootstrap
  have hassign : Leads True (d₃.hierarchy.walkAll.forM (assignManagedName p.translator)) :=
    leads_forM fun _ => leads_assignManagedName fun _ => trivial
  have hinvokers : Leads True (makeInvokers p) := leads_makeInvokers fun _ => trivial
  rw [policy_of_steps (hinvokers.of_ok hst.calling),
    policy_of_steps (leads_nestEnums.of_ok hst.nesting),
    policy_of_steps (hassign.of_ok hst.names), hst.types_registry,
    policy_of_steps (hbootstrap.of_ok hst.supporting)]
  exact (gathered_of_ingest hst.ingest).policy

end BindingTree

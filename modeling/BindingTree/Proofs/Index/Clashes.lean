import BindingTree.Proofs.Index.Lookups

/-! What clashes leave in an index. An entry stands under the name of its element, or was put under a
key with its kind in a clash that was noticed. The plain key of a name leads to something of each
kind that was entered under the name, unless there was a clash over the name or something was put
under it in a clash. So two kinds under one name do not go unnoticed. -/

namespace BindingTree

namespace Registry

/-- A clash over a name was noticed. -/
def Clashed (r : Registry) (u : Table) (name : String) : Prop :=
  ∃ c, .clash c ∈ r.log ∧ c.table = u ∧ c.name = name

/-- Something was put under a key with its kind in a clash. -/
def Displaced (r : Registry) (u : Table) (key : String) : Prop :=
  ∃ c, .clash c ∈ r.log ∧ c.table = u ∧ c.added.keyed c.name = key

/-- Every entry stands under the name of its element, or was put under its key in a clash. -/
def Traced (r : Registry) (names : Table → ElementId → String) : Prop :=
  ∀ ⦃u : Table⦄ ⦃k : String⦄ ⦃e : Entry⦄, (r.index.table u).get? k = some e →
    k = names u e.id ∨ r.Displaced u k

/-- The plain key of a name leads to something of a kind, and to none of some elements, unless there
was a clash. -/
def Shows (r : Registry) (is : List ElementId) (u : Table) (k : Kind) (name : String) : Prop :=
  r.Clashed u name ∨ r.Displaced u name ∨
    ∃ e, (r.index.table u).get? name = some e ∧ e.kind = k ∧ e.id ∉ is

variable {r r' : Registry} {names names' : Table → ElementId → String} {is is' : List ElementId}
  {u v : Table} {k l : Kind} {name key : String} {entry e : Entry} {c : Clash} {i : ElementId}

/-! ### The log -/

theorem log_of_insert (hr : insert u key entry r = .ok () r') :
    r'.log = r.log ∨ ∃ existing, (r.index.table u).get? key = some existing ∧
      existing.kind ≠ entry.kind ∧ existing.id ≠ entry.id ∧
        r'.log = r.log ++ [.clash ⟨key, u, existing.kind, entry.kind⟩] := by
  obtain ⟨-, ⟨-, rfl⟩ | ⟨existing, hw, -, ⟨-, rfl⟩ | ⟨-, rfl⟩⟩⟩ := insert_cases hr
  · exact .inl rfl
  · exact .inl rfl
  · rw [Index.inTheWay?, Option.filter_eq_some_iff] at hw
    obtain ⟨hget, hway⟩ := hw
    rw [Bool.and_eq_true, decide_eq_true_eq, decide_eq_true_eq] at hway
    exact .inr ⟨existing, hget, hway.1, hway.2, rfl⟩

theorem log_subset_of_insert (hr : insert u key entry r = .ok () r') : r.log ⊆ r'.log := by
  rcases log_of_insert hr with h | ⟨_, -, -, -, h⟩
  · exact h ▸ List.Subset.refl _
  · exact h ▸ List.subset_append_left _ _

theorem Clashed.mono (hc : r.Clashed u name) (hl : r.log ⊆ r'.log) : r'.Clashed u name :=
  hc.imp fun _ hc => ⟨hl hc.1, hc.2⟩

theorem Displaced.mono (hd : r.Displaced u key) (hl : r.log ⊆ r'.log) : r'.Displaced u key :=
  hd.imp fun _ hc => ⟨hl hc.1, hc.2⟩

/-- What was put somewhere in a clash is under a key with a colon. -/
theorem Displaced.not_colonless (hd : r.Displaced u key) : ¬ Naming.Colonless key := by
  obtain ⟨c, -, -, rfl⟩ := hd
  exact Index.not_colonless_keyed c.added c.name

/-- What was put under the key of a kind and a name was put there in a clash over the name. -/
theorem Displaced.clashed (hd : r.Displaced u (k.keyed name)) : r.Clashed u name := by
  obtain ⟨c, hc, ht, hkey⟩ := hd
  exact ⟨c, hc, ht, (Index.keyed_inj.1 hkey).2⟩

/-! ### Entries and the names of their elements -/

theorem Traced.congr (ht : r.Traced names)
    (hn : ∀ ⦃u : Table⦄ ⦃k : String⦄ ⦃e : Entry⦄, (r.index.table u).get? k = some e →
      names' u e.id = names u e.id) : r.Traced names' := by
  intro u k e he
  rw [hn he]
  exact ht he

/-- Entries may go. -/
theorem Traced.within (ht : r.Traced names)
    (hw : ∀ ⦃u : Table⦄ ⦃k : String⦄ ⦃e : Entry⦄, (r'.index.table u).get? k = some e →
      (r.index.table u).get? k = some e) (hl : r.log ⊆ r'.log) : r'.Traced names :=
  fun _ _ _ he => (ht (hw he)).imp_right fun hd => hd.mono hl

theorem Traced.insert (ht : r.Traced names) (hkey : key = names u entry.id)
    (hr : Registry.insert u key entry r = .ok () r') : r'.Traced names := by
  intro v k e he
  have hl := log_subset_of_insert hr
  have hold : (r.index.table v).get? k = some e → k = names v e.id ∨ r'.Displaced v k :=
    fun he => (ht he).imp_right fun hd => hd.mono hl
  have hput : ∀ key', ((r.index.setTable u ((r.index.table u).put key' entry)).table v).get? k =
      some e → (r.index.table v).get? k = some e ∨ v = u ∧ k = key' ∧ e = entry := by
    intro key' he
    rw [Index.table_setTable] at he
    split at he
    next hv =>
      rw [KeyedList.get?_put] at he
      split at he
      next hk => exact .inr ⟨hv, hk, (Option.some.inj he).symm⟩
      next => exact .inl (hv ▸ he)
    next => exact .inl he
  obtain ⟨-, ⟨-, rfl⟩ | ⟨existing, -, -, ⟨-, rfl⟩ | ⟨-, rfl⟩⟩⟩ := insert_cases hr
  · rcases hput _ he with he | ⟨rfl, rfl, rfl⟩
    · exact hold he
    · exact .inl hkey
  · exact hold he
  · rcases hput _ he with he | ⟨rfl, rfl, rfl⟩
    · exact hold he
    · exact .inr ⟨_, List.mem_append_right _ List.mem_cons_self, rfl, rfl⟩

/-! ### Kinds under a name -/

theorem Shows.mono (hs : r.Shows is u k name) (hi : is' ⊆ is) : r.Shows is' u k name :=
  hs.imp_right (Or.imp_right fun ⟨e, he, hk, hid⟩ => ⟨e, he, hk, fun hmem => hid (hi hmem)⟩)

/-- Of two kinds under one name, one was entered in a clash. -/
theorem Shows.clashed_or_displaced (hk : r.Shows is u k name) (hl : r.Shows is' u l name)
    (hne : k ≠ l) : r.Clashed u name ∨ r.Displaced u name := by
  rcases hk with hc | hd | ⟨e, he, rfl, -⟩
  · exact .inl hc
  · exact .inr hd
  · rcases hl with hc | hd | ⟨e', he', rfl, -⟩
    · exact .inl hc
    · exact .inr hd
    · cases he.symm.trans he'
      exact absurd rfl hne

/-- Entries that stay, with the log, show what they showed. -/
theorem Shows.of_get? (hs : r.Shows is u k name)
    (hget : ∀ ⦃e : Entry⦄, (r.index.table u).get? name = some e → e.id ∉ is →
      (r'.index.table u).get? name = some e) (hl : r.log ⊆ r'.log) : r'.Shows is u k name := by
  rcases hs with hc | hd | ⟨e, he, hk, hid⟩
  · exact .inl (hc.mono hl)
  · exact .inr (.inl (hd.mono hl))
  · exact .inr (.inr ⟨e, hget he hid, hk, hid⟩)

/-- What stands under a key stays there, unless something is put under the key in a clash, or what is
entered under it is of the same kind or the same element. -/
theorem kept_of_insert (he : (r.index.table u).get? name = some e)
    (hr : Registry.insert v key entry r = .ok () r') : r'.Displaced u name ∨
      (r'.index.table u).get? name = some e ∨ (u = v ∧ name = key) ∧
        (e.kind = entry.kind ∨ e.id = entry.id) ∧ (r'.index.table u).get? name = some entry := by
  have hput : ∀ key', ¬ (u = v ∧ name = key') →
      ((r.index.setTable v ((r.index.table v).put key' entry)).table u).get? name = some e := by
    intro key' hnot
    rw [Index.table_setTable]
    split
    next huv =>
      rw [KeyedList.get?_put, if_neg fun hkey => hnot ⟨huv, hkey⟩, ← huv, he]
    next => exact he
  obtain ⟨-, ⟨hw, rfl⟩ | ⟨existing, -, -, ⟨-, rfl⟩ | ⟨-, rfl⟩⟩⟩ := insert_cases hr
  · by_cases hsame : u = v ∧ name = key
    · obtain ⟨rfl, rfl⟩ := hsame
      refine .inr (.inr ⟨⟨rfl, rfl⟩, ?_, by simp [Index.table_setTable, KeyedList.get?_put]⟩)
      by_contra hnot
      rw [not_or] at hnot
      rw [Index.inTheWay?, he] at hw
      simp [Option.filter, hnot.1, hnot.2] at hw
    · exact .inr (.inl (hput key hsame))
  · exact .inr (.inl he)
  · by_cases hsame : u = v ∧ name = entry.kind.keyed key
    · exact .inl ⟨_, List.mem_append_right _ List.mem_cons_self, hsame.1.symm, hsame.2.symm⟩
    · exact .inr (.inl (hput _ hsame))

/-- An element gives way under its plain key to none but one of its kind. -/
theorem Shows.insert (hs : r.Shows is u k name)
    (hkind : ∀ ⦃key : String⦄ ⦃e : Entry⦄, (r.index.table v).get? key = some e →
      e.id = entry.id → e.kind = entry.kind) (hid : entry.id ∉ is)
    (hr : Registry.insert v key entry r = .ok () r') : r'.Shows is u k name := by
  have hl := log_subset_of_insert hr
  rcases hs with hc | hd | ⟨e, he, hk, hout⟩
  · exact .inl (hc.mono hl)
  · exact .inr (.inl (hd.mono hl))
  · rcases kept_of_insert he hr with hd | hkept | ⟨⟨rfl, rfl⟩, hsame, hnew⟩
    · exact .inr (.inl hd)
    · exact .inr (.inr ⟨e, hkept, hk, hout⟩)
    · exact .inr (.inr ⟨entry, hnew, (hsame.elim id (hkind he)).symm.trans hk, hid⟩)

/-- An element that is entered is shown under its name. -/
theorem shows_of_insert (ht : r.Traced names) (hkey : key = names u entry.id) (hid : entry.id ∉ is)
    (hr : Registry.insert u key entry r = .ok () r') : r'.Shows is u entry.kind key := by
  obtain ⟨-, ⟨-, rfl⟩ | ⟨existing, -, -, ⟨hl, rfl⟩ | ⟨-, rfl⟩⟩⟩ := insert_cases hr
  · exact .inr (.inr ⟨entry, by simp [Index.table_setTable, KeyedList.get?_put], rfl, hid⟩)
  · -- It is under the key with its kind already, which is not its name.
    rw [Index.leadsTo, Option.any_eq_true] at hl
    obtain ⟨e, he, hsame⟩ := hl
    rcases ht he with hname | hd
    · rw [of_decide_eq_true hsame, ← hkey] at hname
      exact absurd hname (Index.keyed_ne _ _)
    · exact .inl hd.clashed
  · exact .inl ⟨_, List.mem_append_right _ List.mem_cons_self, rfl, rfl⟩

/-! ### Keys that lead to an element -/

/-- The plain key of a name leads to an entry, unless something was put under it in a clash. -/
def Reaches (r : Registry) (u : Table) (name : String) (e : Entry) : Prop :=
  r.Displaced u name ∨ (r.index.table u).get? name = some e

/-- A key does not lead to an element. -/
def Misses (r : Registry) (u : Table) (key : String) (i : ElementId) : Prop :=
  ∀ ⦃e : Entry⦄, (r.index.table u).get? key = some e → e.id ≠ i

/-- Nothing but an element of the same kind takes the key. -/
theorem Reaches.insert (he : r.Reaches u name e)
    (hother : u = v → name = key → e.kind ≠ entry.kind ∧ e.id ≠ entry.id)
    (hr : Registry.insert v key entry r = .ok () r') : r'.Reaches u name e := by
  rcases he with hd | he
  · exact .inl (hd.mono (log_subset_of_insert hr))
  · rcases kept_of_insert he hr with hd | hkept | ⟨⟨huv, hkey⟩, hsame, -⟩
    · exact .inl hd
    · exact .inr hkept
    · obtain ⟨hkind, hid⟩ := hother huv hkey
      exact absurd hsame (not_or.2 ⟨hkind, hid⟩)

/-- An element that finds nothing of another kind under its name takes the key. -/
theorem reaches_of_insert (hfree : ∀ ⦃e : Entry⦄, (r.index.table u).get? key = some e →
      e.kind = entry.kind ∨ e.id = entry.id)
    (hr : Registry.insert u key entry r = .ok () r') : r'.Reaches u key entry := by
  obtain ⟨-, ⟨-, rfl⟩ | ⟨existing, hw, -⟩⟩ := insert_cases hr
  · exact .inr (by simp [Index.table_setTable, KeyedList.get?_put])
  · rw [Index.inTheWay?, Option.filter_eq_some_iff] at hw
    obtain ⟨hget, hway⟩ := hw
    rw [Bool.and_eq_true, decide_eq_true_eq, decide_eq_true_eq] at hway
    exact absurd (hfree hget) (not_or.2 hway)

theorem Reaches.misses (he : r.Reaches u name e) (hd : ¬ r.Displaced u name) (hi : e.id ≠ i) :
    r.Misses u name i := by
  intro e' he'
  cases (he.resolve_left hd).symm.trans he'
  exact hi

theorem Misses.insert (hm : r.Misses u key i) (hi : entry.id ≠ i)
    (hr : Registry.insert v name entry r = .ok () r') : r'.Misses u key i := by
  intro e he
  rcases get?_of_insert hr he with he | ⟨-, rfl, -⟩
  · exact hm he
  · exact hi

end Registry

end BindingTree

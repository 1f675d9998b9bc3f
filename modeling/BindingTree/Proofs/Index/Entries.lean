import BindingTree.Index.Registry
import BindingTree.Proofs.Naming.Qualifiers

/-! What entering an element into the index and removing it do to the entries of each table. An
entry under a key is either an old one or the new one, and the new one stands under its plain name
unless an entry of another kind is in the way. -/

namespace BindingTree

namespace Index

variable {ix : Index} {t u : Table} {es : Entries} {key k : String} {entry e : Entry}

/-- A key with a kind is longer than the plain one. -/
theorem keyed_ne (k : Kind) (name : String) : k.keyed name ≠ name := by
  intro h
  have hlen := congrArg (fun s => s.toList.length) h
  simp only [Kind.keyed, String.toList_append, List.length_append] at hlen
  have hcolon : ":".toList.length = 1 := rfl
  omega

theorem not_colonless_keyed (k : Kind) (name : String) : ¬ Naming.Colonless (k.keyed name) := by
  intro hc
  rw [Kind.keyed, Naming.colonless_append, Naming.colonless_append] at hc
  exact absurd hc.1.2 (by unfold Naming.Colonless; decide)

theorem table_setTable : (ix.setTable t es).table u = if u = t then es else ix.table u := by
  cases t <;> cases u <;> rfl

theorem policy_setTable : (ix.setTable t es).policy = ix.policy := by
  cases t <;> rfl

theorem get?_of_get?_drop {id : ElementId} (hk : (drop es key id).get? k = some e) :
    es.get? k = some e := by
  unfold drop at hk
  split at hk
  · rw [KeyedList.get?_erase] at hk
    split at hk
    · cases hk
    · exact hk
  · exact hk

theorem get?_of_get?_remove (hk : ((ix.remove t key entry).1.table u).get? k = some e) :
    (ix.table u).get? k = some e := by
  unfold remove at hk
  rw [table_setTable] at hk
  split at hk
  next hu =>
    subst hu
    exact get?_of_get?_drop (get?_of_get?_drop hk)
  next => exact hk

/-- An entry stays unless it is of the element that is removed from under its key. -/
theorem get?_drop_of_get? {id : ElementId} (he : es.get? k = some e) (hne : e.id = id → k ≠ key) :
    (drop es key id).get? k = some e := by
  unfold drop
  split
  next hl =>
    rw [KeyedList.get?_erase]
    split
    next hkey =>
      subst hkey
      rw [leadsTo, he] at hl
      exact absurd rfl (hne (of_decide_eq_true hl))
    next => exact he
  next => exact he

theorem get?_remove_of_get? (he : (ix.table u).get? k = some e)
    (hne : e.id = entry.id → k ≠ key ∧ k ≠ entry.kind.keyed key) :
    ((ix.remove t key entry).1.table u).get? k = some e := by
  unfold remove
  rw [table_setTable]
  split
  next hu =>
    subst hu
    exact get?_drop_of_get? (get?_drop_of_get? he fun hid => (hne hid).1) fun hid => (hne hid).2
  next => exact he

theorem ne_of_get?_drop {id : ElementId} (hk : (drop es key id).get? key = some e) : e.id ≠ id := by
  unfold drop at hk
  split at hk
  · simp [KeyedList.get?_erase] at hk
  next hl =>
    intro he
    exact hl (by simp [leadsTo, hk, he])

/-- A key from which an element was removed leads to another one, if to any. -/
theorem ne_of_get?_remove (hk : ((ix.remove t key entry).1.table t).get? key = some e) :
    e.id ≠ entry.id := by
  unfold remove at hk
  rw [table_setTable, if_pos rfl] at hk
  exact ne_of_get?_drop (get?_of_get?_drop hk)

/-- So does the key with the kind of the element. -/
theorem ne_of_get?_remove_keyed
    (hk : ((ix.remove t key entry).1.table t).get? (entry.kind.keyed key) = some e) :
    e.id ≠ entry.id := by
  unfold remove at hk
  rw [table_setTable, if_pos rfl] at hk
  exact ne_of_get?_drop hk

/-- An entry of the hinted kind under the plain native name comes before all others. -/
theorem lookup?_of_get?_native (he : ix.native.get? key = some e) :
    ix.lookup? key (some e.kind) = some e := by
  simp [lookup?, lookupIn, he]

end Index

namespace Registry

open Index

variable {r r' : Registry} {t u : Table} {key k : String} {entry e : Entry}

/-- What entering an element can do: it goes under its plain key, or, with another kind in the
way, under a key with its kind, unless it is there already. -/
theorem insert_cases (hr : insert t key entry r = .ok () r') :
    key ≠ "" ∧
      (inTheWay? (r.index.table t) key entry = none ∧
          r' = { r with index := r.index.setTable t ((r.index.table t).put key entry) } ∨
        ∃ existing, inTheWay? (r.index.table t) key entry = some existing ∧
          r.index.policy = .rekey ∧
          (leadsTo (r.index.table t) (entry.kind.keyed key) entry.id = true ∧ r' = r ∨
            leadsTo (r.index.table t) (entry.kind.keyed key) entry.id = false ∧
              r' = ⟨r.index.setTable t ((r.index.table t).put (entry.kind.keyed key) entry),
                r.log ++ [.clash ⟨key, t, existing.kind, entry.kind⟩]⟩)) := by
  unfold insert Index.insert at hr
  dsimp only at hr
  by_cases hkey : key = ""
  · simp [hkey] at hr
  refine ⟨hkey, ?_⟩
  rw [if_neg hkey] at hr
  cases hw : inTheWay? (r.index.table t) key entry with
  | none =>
    simp only [hw] at hr
    cases hr
    exact .inl ⟨rfl, rfl⟩
  | some existing =>
    refine .inr ⟨existing, rfl, ?_⟩
    cases hp : r.index.policy with
    | strict => simp [hw, hp] at hr
    | rekey =>
      simp only [hw, hp] at hr
      refine ⟨rfl, ?_⟩
      cases hl : leadsTo (r.index.table t) (entry.kind.keyed key) entry.id with
      | true =>
        rw [hl, if_pos rfl] at hr
        cases hr
        exact .inl ⟨rfl, rfl⟩
      | false =>
        rw [hl, if_neg (by simp)] at hr
        cases hr
        exact .inr ⟨rfl, rfl⟩

/-- Entering an element fails at an empty key, or where something is in the way under the strict
policy. -/
theorem insert_error {failure : Failure} (hr : insert t key entry r = .error failure r') :
    key = "" ∧ failure = .invalidElement (.emptyKey entry.kind entry.id) ∨
      ∃ existing, inTheWay? (r.index.table t) key entry = some existing ∧
        failure = .duplicate ⟨key, t, existing.kind, entry.kind⟩ := by
  unfold insert Index.insert at hr
  dsimp only at hr
  by_cases hkey : key = ""
  · rw [if_pos hkey] at hr
    cases hr
    exact .inl ⟨hkey, rfl⟩
  rw [if_neg hkey] at hr
  cases hw : inTheWay? (r.index.table t) key entry with
  | none =>
    simp only [hw] at hr
    cases hr
  | some existing =>
    cases hp : r.index.policy with
    | strict =>
      simp only [hw, hp] at hr
      cases hr
      exact .inr ⟨existing, rfl, rfl⟩
    | rekey =>
      simp only [hw, hp] at hr
      cases hl : leadsTo (r.index.table t) (entry.kind.keyed key) entry.id <;> simp [hl] at hr

/-- Entering an element changes nothing where it fails. -/
theorem eq_of_insert_error {failure : Failure} (hr : insert t key entry r = .error failure r') :
    r' = r := by
  unfold insert at hr
  split at hr
  · cases hr
    rfl
  · cases hr
  · cases hr

theorem policy_of_insert (hr : insert t key entry r = .ok () r') :
    r'.index.policy = r.index.policy := by
  obtain ⟨-, ⟨-, rfl⟩ | ⟨_, -, -, ⟨-, rfl⟩ | ⟨-, rfl⟩⟩⟩ := insert_cases hr
  · exact policy_setTable
  · rfl
  · exact policy_setTable

/-- After an element is entered, an entry is an old one or the new one under one of its keys. -/
theorem get?_of_insert (hr : insert t key entry r = .ok () r')
    (hk : (r'.index.table u).get? k = some e) :
    (r.index.table u).get? k = some e ∨
      u = t ∧ e = entry ∧
        (k = key ∧ inTheWay? (r.index.table t) key entry = none ∨ k = entry.kind.keyed key) := by
  have hput : ∀ key', ((r.index.setTable t ((r.index.table t).put key' entry)).table u).get? k
      = some e → (r.index.table u).get? k = some e ∨ u = t ∧ e = entry ∧ k = key' := by
    intro key' h
    rw [table_setTable] at h
    split at h
    next hu =>
      subst hu
      rw [KeyedList.get?_put] at h
      split at h
      next hkey => exact .inr ⟨rfl, (Option.some.inj h).symm, hkey⟩
      next => exact .inl h
    next => exact .inl h
  obtain ⟨-, ⟨hw, rfl⟩ | ⟨_, -, -, ⟨-, rfl⟩ | ⟨-, rfl⟩⟩⟩ := insert_cases hr
  · exact (hput key hk).imp_right fun ⟨hu, he, hk⟩ => ⟨hu, he, .inl ⟨hk, hw⟩⟩
  · exact .inl hk
  · exact (hput _ hk).imp_right fun ⟨hu, he, hk⟩ => ⟨hu, he, .inr hk⟩

/-- After an element is entered, its plain key leads to it or to what was in its way. -/
theorem exists_get?_of_insert (hr : insert t key entry r = .ok () r') :
    ∃ e, (r'.index.table t).get? key = some e ∧
      (e = entry ∨ (r.index.table t).get? key = some e ∧ e.kind ≠ entry.kind) := by
  obtain ⟨-, ⟨-, rfl⟩ | ⟨existing, hw, -, hcases⟩⟩ := insert_cases hr
  · exact ⟨entry, by simp [table_setTable, KeyedList.get?_put], .inl rfl⟩
  · rw [inTheWay?, Option.filter_eq_some_iff] at hw
    have hkind : existing.kind ≠ entry.kind := by
      have := hw.2
      simp only [Bool.and_eq_true, decide_eq_true_eq] at this
      exact this.1
    refine ⟨existing, ?_, .inr ⟨hw.1, hkind⟩⟩
    rcases hcases with ⟨-, rfl⟩ | ⟨-, rfl⟩
    · exact hw.1
    · simp [table_setTable, KeyedList.get?_put, Ne.symm (keyed_ne entry.kind key), hw.1]

end Registry

end BindingTree

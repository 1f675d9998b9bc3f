import BindingTree.Proofs.Index.Entries

/-! Removing an element from under a key. Only entries of the element go, so a look-up that gave
another element goes on giving it: what is taken away was not chosen, and at most made way for what
was. A look-up that failed fails as before, since nothing is added. -/

namespace BindingTree

namespace KeyedList

variable {κ α : Type} [DecidableEq κ]

theorem size_erase_le (m : KeyedList κ α) (k : κ) : (m.erase k).size ≤ m.size :=
  List.length_filter_le _ _

/-- Erasing a key under which there is something leaves less. -/
theorem size_erase_lt {m : KeyedList κ α} {k : κ} {a : α} (hk : m.get? k = some a) :
    (m.erase k).size < m.size := by
  obtain ⟨e, he, -⟩ := Option.map_eq_some_iff.1 hk
  have hkey : e.1 = k := by simpa using List.find?_some he
  apply List.length_filter_lt_length_iff_exists.2
  exact ⟨e, List.mem_of_find?_eq_some he, by simp [hkey]⟩

end KeyedList

namespace Index

variable {ix : Index} {t : Table} {es es' : Entries} {key k name : String} {hint : Option Kind}
  {entry e : Entry} {i : ElementId}

/-- Of the entries of a table some may be gone, but only entries of one element. -/
structure Spares (i : ElementId) (es es' : Entries) : Prop where
  old : ∀ ⦃k : String⦄ ⦃e : Entry⦄, es'.get? k = some e → es.get? k = some e
  kept : ∀ ⦃k : String⦄ ⦃e : Entry⦄, es.get? k = some e → e.id ≠ i → es'.get? k = some e

namespace Spares

variable (hs : Spares i es es')
include hs

theorem get?_eq_none (hk : es.get? k = none) : es'.get? k = none := by
  cases h : es'.get? k with
  | none => rfl
  | some e => simp [hs.old h] at hk

/-- Where no entry of a kind stood under a plain key, none stands there afterwards. -/
theorem any_kind_eq_false {l : Kind} (hk : (es.get? k).any (·.kind = l) = false) :
    (es'.get? k).any (·.kind = l) = false := by
  cases h : es'.get? k with
  | none => rfl
  | some e => simpa [hs.old h] using hk

theorem lookupIn_eq_none (hl : lookupIn es name hint = none) :
    lookupIn es' name hint = none := by
  cases hint with
  | none => exact hs.get?_eq_none hl
  | some l =>
    unfold lookupIn at hl ⊢
    dsimp only at hl ⊢
    split at hl
    next hany => simp [hl] at hany
    next hany =>
      rw [Option.or_eq_none_iff] at hl
      simp [hs.get?_eq_none hl.1, hs.get?_eq_none hl.2]

/-- An entry of another element that a table gave, it goes on giving. Where the plain entry was in
the way of the hinted kind only by its name, it may go; the entry of the hinted kind comes first. -/
theorem lookupIn_eq_some (hl : lookupIn es name hint = some e) (hne : e.id ≠ i) :
    lookupIn es' name hint = some e := by
  cases hint with
  | none => exact hs.kept hl hne
  | some l =>
    unfold lookupIn at hl ⊢
    dsimp only at hl ⊢
    split at hl
    next hany =>
      rw [hl] at hany
      simp only [hs.kept hl hne, hany, if_true]
    next hany =>
      rw [if_neg (by simpa using hs.any_kind_eq_false (by simpa using hany))]
      rcases Option.or_eq_some_iff.1 hl with hkeyed | ⟨hkeyed, hplain⟩
      · simp [hs.kept hkeyed hne]
      · simp [hs.get?_eq_none hkeyed, hs.kept hplain hne]

end Spares

/-! ### What is gone -/

theorem spares_remove (ix : Index) (t : Table) (key : String) (entry : Entry) (u : Table) :
    Spares entry.id (ix.table u) ((ix.remove t key entry).1.table u) where
  old _ _ hk := get?_of_get?_remove hk
  kept _ _ he hne := get?_remove_of_get? he fun h => absurd h hne

theorem lookup?_remove (hl : ix.lookup? name hint = some e) (hne : e.id ≠ entry.id) :
    (ix.remove t key entry).1.lookup? name hint = some e := by
  have hnative := spares_remove ix t key entry .native
  have hmanaged := spares_remove ix t key entry .managed
  rw [lookup?, Option.or_eq_some_iff] at hl ⊢
  rcases hl with hl | ⟨hnone, hl⟩
  · exact .inl (hnative.lookupIn_eq_some hl hne)
  · exact .inr ⟨hnative.lookupIn_eq_none hnone, hmanaged.lookupIn_eq_some hl hne⟩

theorem lookup?_remove_eq_none (hl : ix.lookup? name hint = none) :
    (ix.remove t key entry).1.lookup? name hint = none := by
  rw [lookup?, Option.or_eq_none_iff] at hl ⊢
  exact ⟨(spares_remove ix t key entry .native).lookupIn_eq_none hl.1,
    (spares_remove ix t key entry .managed).lookupIn_eq_none hl.2⟩

/-! ### How much is gone -/

theorem size_drop_le (es : Entries) (key : String) (i : ElementId) :
    (drop es key i).size ≤ es.size := by
  unfold drop
  split
  · exact es.size_erase_le key
  · exact Nat.le_refl _

theorem size_drop_lt_iff (es : Entries) (key : String) (i : ElementId) :
    (drop es key i).size < es.size ↔ leadsTo es key i = true := by
  unfold drop
  split
  next hl =>
    obtain ⟨e, he, -⟩ := (Option.any_eq_true _ _).1 hl
    simp [hl, KeyedList.size_erase_lt he]
  next hl => simp [hl]

theorem leadsTo_drop_of_ne (hk : k ≠ key) : leadsTo (drop es key i) k i = leadsTo es k i := by
  unfold drop
  split
  · simp [leadsTo, KeyedList.get?_erase, hk]
  · rfl

theorem leadsTo_drop_self : leadsTo (drop es key i) key i = false := by
  cases h : (drop es key i).get? key with
  | none => simp [leadsTo, h]
  | some e => simpa [leadsTo, h] using ne_of_get?_drop h

theorem table_remove : (ix.remove t key entry).1.table t =
    drop (drop (ix.table t) key entry.id) (entry.kind.keyed key) entry.id := by
  simp [remove, table_setTable]

/-- The key with the kind is another one, so what goes there leaves the plain key alone. -/
theorem leadsTo_remove :
    leadsTo ((ix.remove t key entry).1.table t) key entry.id = false := by
  rw [table_remove, leadsTo_drop_of_ne (keyed_ne entry.kind key).symm, leadsTo_drop_self]

theorem leadsTo_remove_keyed :
    leadsTo ((ix.remove t key entry).1.table t) (entry.kind.keyed key) entry.id = false := by
  rw [table_remove, leadsTo_drop_self]

/-- A removal tells that it found the element just when one of the two keys led to it. -/
theorem found_remove : (ix.remove t key entry).2 = true ↔
    leadsTo (ix.table t) key entry.id = true ∨
      leadsTo (ix.table t) (entry.kind.keyed key) entry.id = true := by
  unfold remove
  dsimp only
  rw [leadsTo_drop_of_ne (keyed_ne entry.kind key), Bool.or_eq_true]

theorem size_setTable_add (ix : Index) (t : Table) (es : Entries) :
    (ix.setTable t es).size + (ix.table t).size = ix.size + es.size := by
  cases t <;> simp only [size, setTable, table] <;> omega

/-- An index gets smaller by a removal just when the element was found. -/
theorem size_remove_lt_iff :
    (ix.remove t key entry).1.size < ix.size ↔ (ix.remove t key entry).2 = true := by
  have hplain := size_drop_le (ix.table t) key entry.id
  have hplain_iff := size_drop_lt_iff (ix.table t) key entry.id
  have hboth := size_drop_le (drop (ix.table t) key entry.id) (entry.kind.keyed key) entry.id
  have hboth_iff := size_drop_lt_iff (drop (ix.table t) key entry.id) (entry.kind.keyed key) entry.id
  have hsize := size_setTable_add ix t
    (drop (drop (ix.table t) key entry.id) (entry.kind.keyed key) entry.id)
  unfold remove
  dsimp only
  rw [Bool.or_eq_true, ← hplain_iff, ← hboth_iff]
  omega

end Index

namespace Registry

open Index

/-- What the removal of an element from under a key of a table comes to, in the state `r'` that it
leads to from `r` and in the answer whether the element was found. -/
structure Removal (r r' : Registry) (t : Table) (key : String) (i : ElementId) (e : Element)
    (found : Bool) : Prop where
  /-- A look-up that gave another element gives it again. -/
  others : ∀ name hint onBehalfOf j, j ≠ i → r.index.lookup name hint onBehalfOf = .ok j →
    r'.index.lookup name hint onBehalfOf = .ok j
  /-- A look-up that failed fails in the same way. -/
  failures : ∀ name hint onBehalfOf failure,
    r.index.lookup name hint onBehalfOf = .error failure →
      r'.index.lookup name hint onBehalfOf = .error failure
  found_iff : found = true ↔ leadsTo (r.index.table t) key i = true ∨
    leadsTo (r.index.table t) (e.kind.keyed key) i = true
  smaller_iff : found = true ↔ r'.index.size < r.index.size
  /-- Neither key leads to the element any more. -/
  gone : leadsTo (r'.index.table t) key i = false ∧
    leadsTo (r'.index.table t) (e.kind.keyed key) i = false

/-- A removal is exact in every state of an index, so in whatever calls under either policy lead
to. -/
theorem removal_exact (r : Registry) (t : Table) (key : String) (i : ElementId) (e : Element) :
    Removal r (r.remove t key i e).1 t key i e (r.remove t key i e).2 where
  others name hint onBehalfOf j hj hl := by
    unfold Index.lookup at hl ⊢
    cases hfound : r.index.lookup? name hint with
    | none => simp [hfound] at hl
    | some x =>
      have hx : x.id = j := by simpa [hfound] using hl
      have hkept : (r.remove t key i e).1.index.lookup? name hint = some x :=
        lookup?_remove hfound (by rwa [hx])
      simp [hkept, hx]
  failures name hint onBehalfOf failure hl := by
    unfold Index.lookup at hl ⊢
    cases hfound : r.index.lookup? name hint with
    | some x => simp [hfound] at hl
    | none =>
      have hnone : (r.remove t key i e).1.index.lookup? name hint = none :=
        lookup?_remove_eq_none hfound
      simpa [hfound, hnone] using hl
  found_iff := found_remove
  smaller_iff := size_remove_lt_iff.symm
  gone := ⟨leadsTo_remove, leadsTo_remove_keyed⟩

/-- A class, and an interface that went under the key with its kind as the class has its name. -/
def enterShared : EStateM Failure Registry Unit := do
  addNative 0 (.fresh (.type .cls {}) "a.B")
  addNative 1 (.fresh (.type .iface {}) "a.B")

/-- When the class is removed the name leads to the interface where one is asked for, as before, and
nowhere otherwise. -/
theorem removal_of_shared : ∃ r, enterShared (.empty .rekey) = .ok () r ∧
    r.index.lookup "a.B" none none = .ok 0 ∧ r.index.lookup "a.B" (some .iface) none = .ok 1 ∧
      let r' := (r.remove .native "a.B" 0 (.fresh (.type .cls {}) "a.B")).1
      r'.index.size < r.index.size ∧ r'.index.lookup "a.B" (some .iface) none = .ok 1 ∧
        r'.index.lookup "a.B" none none = .error (.typeNotFound "a.B" none) := by
  obtain ⟨r, hrun, hclass, hiface, hleads, hlost⟩ : ∃ r, enterShared (.empty .rekey) = .ok () r ∧
      r.index.lookup "a.B" none none = .ok 0 ∧ r.index.lookup "a.B" (some .iface) none = .ok 1 ∧
        leadsTo r.index.native "a.B" 0 = true ∧
          (r.remove .native "a.B" 0 (.fresh (.type .cls {}) "a.B")).1.index.lookup "a.B" none none =
            .error (.typeNotFound "a.B" none) :=
    ⟨_, rfl, by decide +kernel, by decide +kernel, by decide +kernel, by decide +kernel⟩
  have hremoval := removal_exact r .native "a.B" 0 (.fresh (.type .cls {}) "a.B")
  have hsmaller := hremoval.smaller_iff.1 (hremoval.found_iff.2 (.inl hleads))
  have hkept := hremoval.others "a.B" (some .iface) none 1 (by decide) hiface
  exact ⟨r, hrun, hclass, hiface, hsmaller, hkept, hlost⟩

end Registry

end BindingTree

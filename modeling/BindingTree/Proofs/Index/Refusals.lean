import BindingTree.Proofs.Index.History

/-! Calls that fail. One insertion either goes through or changes nothing. An addition makes two, the
native one first, and does not take it back when the managed one is refused; that happens only under
the strict policy, and then the native key leads to the element, while the managed table and the log
are as they were. Every other call that fails leaves the index as it found it. -/

namespace BindingTree

namespace KeyedList

variable {κ α : Type} [DecidableEq κ]

/-- A value under a new key makes a list longer by one. -/
theorem size_put (m : KeyedList κ α) (k : κ) (a : α) :
    (m.put k a).size = m.size + if (m.get? k).isSome then 0 else 1 := by
  change (putIn k a m.entries).length = m.entries.length + if (m.get? k).isSome then 0 else 1
  unfold get?
  induction m.entries with
  | nil => rfl
  | cons e rest ih =>
    obtain ⟨l, b⟩ := e
    rw [putIn]
    by_cases hl : l = k
    · simp [hl]
    · simp only [hl, if_false, List.length_cons, ih, List.find?_cons, decide_false]
      exact Nat.add_right_comm _ _ _

end KeyedList

namespace Index

variable {ix ix' : Index} {es es' : Entries} {name : String} {hint : Option Kind}

/-- Whether a look-up of a name consults a key: the name itself or, with a hint, the name with the
hinted kind. -/
def Consults (name : String) (hint : Option Kind) (key : String) : Prop :=
  key = name ∨ ∃ k, hint = some k ∧ key = k.keyed name

/-- Tables that agree on what a look-up consults give it the same answer. -/
theorem lookupIn_congr (h : ∀ key, Consults name hint key → es'.get? key = es.get? key) :
    lookupIn es' name hint = lookupIn es name hint := by
  unfold lookupIn
  rw [h name (.inl rfl)]
  cases hint with
  | none => rfl
  | some k =>
    dsimp only
    rw [h (k.keyed name) (.inr ⟨k, rfl, rfl⟩)]

theorem lookup_congr {onBehalfOf : Option Element}
    (hnative : ∀ key, Consults name hint key → ix'.native.get? key = ix.native.get? key)
    (hmanaged : ix'.managed = ix.managed) :
    ix'.lookup name hint onBehalfOf = ix.lookup name hint onBehalfOf := by
  unfold lookup lookup?
  rw [lookupIn_congr hnative, hmanaged]

end Index

namespace Registry

open Index

/-- Why an insertion is refused: its name is empty, or under the strict policy its key leads to another
element of another kind. -/
inductive Refuses (r : Registry) (i : Insertion) : Failure → Prop
  | emptyName : i.name = "" → Refuses r i (.invalidElement (.emptyKey i.entry.kind i.entry.id))
  | taken {existing : Entry} : r.index.policy = .strict →
      (r.index.table i.table).get? i.name = some existing → existing.kind ≠ i.entry.kind →
      existing.id ≠ i.entry.id → Refuses r i (.duplicate ⟨i.name, i.table, existing.kind, i.entry.kind⟩)

/-- What is left of an addition whose second insertion is refused: the first one, and nothing else. -/
structure HalfAdded (r r' : Registry) (i : ElementId) (e : Element) (failure : Failure) : Prop where
  strict : r.index.policy = .strict
  entered : addNative i e r = .ok () r'
  refused : r.Refuses ⟨.managed, e.fullManagedText, ⟨i, e.kind⟩⟩ failure
  /-- The native key leads to the element, and every other key where it led. -/
  native : ∀ key, r'.index.native.get? key =
    if key = e.fullName then some ⟨i, e.kind⟩ else r.index.native.get? key
  managed : r'.index.managed = r.index.managed
  /-- A look-up that does not consult the native key has the same outcome. -/
  others : ∀ name hint onBehalfOf, ¬ Consults name hint e.fullName →
    r'.index.lookup name hint onBehalfOf = r.index.lookup name hint onBehalfOf
  /-- The index is longer by one, unless the native key was taken before. -/
  size : r'.index.size = r.index.size + if (r.index.native.get? e.fullName).isSome then 0 else 1
  log : r'.log = r.log

variable {r r' : Registry} {i : Insertion} {id : ElementId} {e : Element} {c : Call}
  {failure : Failure}

/-! ### One insertion -/

theorem refuses_of_insert_error (hi : insert i.table i.name i.entry r = .error failure r') :
    r.Refuses i failure := by
  by_cases hname : i.name = ""
  · have hempty : insert i.table i.name i.entry r =
        .error (.invalidElement (.emptyKey i.entry.kind i.entry.id)) r := by
      simp [insert, Index.insert, hname]
    cases hempty.symm.trans hi
    exact .emptyName hname
  · obtain ⟨h, -⟩ | ⟨existing, hway, rfl⟩ := insert_error hi
    · exact absurd h hname
    rw [inTheWay?, Option.filter_eq_some_iff, Bool.and_eq_true] at hway
    obtain ⟨hget, hkind, hid⟩ := hway
    have hstrict : r.index.policy = .strict := by
      cases hp : r.index.policy with
      | strict => rfl
      | rekey =>
        obtain ⟨r₁, hok⟩ : ∃ r₁, insert i.table i.name i.entry r = .ok () r₁ :=
          exists_insert hp hname
        cases hok.symm.trans hi
    exact .taken hstrict hget (of_decide_eq_true hkind) (of_decide_eq_true hid)

/-- Under the strict policy an insertion that goes through puts the entry under its plain key, and
nothing is noticed. -/
theorem eq_put_of_insert {t : Table} {key : String} {entry : Entry}
    (hp : r.index.policy = .strict) (hi : insert t key entry r = .ok () r') :
    r' = { r with index := r.index.setTable t ((r.index.table t).put key entry) } := by
  obtain ⟨-, ⟨-, h⟩ | ⟨-, -, hrekey, -⟩⟩ := insert_cases hi
  · exact h
  · rw [hp] at hrekey
    cases hrekey

/-! ### Calls -/

theorem addManaged_error (hr : addManaged id e r = .error failure r') :
    e.fullManagedText ≠ "" ∧ r' = r ∧
      r.Refuses ⟨.managed, e.fullManagedText, ⟨id, e.kind⟩⟩ failure := by
  unfold addManaged at hr
  split at hr
  next => cases hr
  next hne => exact ⟨hne, eq_of_insert_error hr, refuses_of_insert_error (i := ⟨_, _, _⟩) hr⟩

/-- Where the managed name of an addition is refused, the addition is half done. -/
theorem halfAdded_of_error (hn : addNative id e r = .ok () r')
    (hm : addManaged id e r' = .error failure r') : r.HalfAdded r' id e failure := by
  obtain ⟨hne, -, hrefused⟩ := addManaged_error hm
  have hpolicy : r'.index.policy = r.index.policy := policy_of_insert hn
  cases hrefused with
  | emptyName h => exact absurd h hne
  | @taken existing hstrict hget hkind hid =>
    have hp : r.index.policy = .strict := hpolicy.symm.trans hstrict
    obtain rfl := eq_put_of_insert hp hn
    have hnative : ∀ key, (r.index.native.put e.fullName ⟨id, e.kind⟩).get? key =
        if key = e.fullName then some ⟨id, e.kind⟩ else r.index.native.get? key :=
      fun key => KeyedList.get?_put _ _ _ _
    refine ⟨hp, hn, .taken hp hget hkind hid, hnative, rfl, fun name hint onBehalfOf hc => ?_, ?_, rfl⟩
    · refine lookup_congr (fun key hkey => ?_) rfl
      have hne : key ≠ e.fullName := by
        rintro rfl
        exact hc hkey
      exact (hnative key).trans (if_neg hne)
    · change (r.index.native.put e.fullName ⟨id, e.kind⟩).size + r.index.managed.size =
        r.index.native.size + r.index.managed.size + _
      rw [KeyedList.size_put]
      exact Nat.add_right_comm _ _ _

/-- A call that fails, in whatever state of the index and under either policy, is refused one of its
insertions; and then nothing has changed, unless the call is an addition whose managed name is
refused. -/
theorem state_of_refused (hc : c.run r = .error failure r') :
    (r' = r ∧ ∃ i ∈ c.insertions, r.Refuses i failure) ∨
      ∃ id e, c = .add id e ∧ r.HalfAdded r' id e failure := by
  cases c with
  | addNative id e =>
    exact .inl ⟨eq_of_insert_error hc, _, List.mem_singleton_self _, refuses_of_insert_error hc⟩
  | addManaged id e =>
    obtain ⟨hne, rfl, hrefused⟩ := addManaged_error hc
    exact .inl ⟨rfl, _, by simp [Call.insertions, Call.managed, hne], hrefused⟩
  | add id e =>
    obtain hnative | ⟨_, r₁, hnative, hmanaged⟩ := EStateM.bind_eq_error.1 hc
    · exact .inl ⟨eq_of_insert_error hnative, ⟨.native, e.fullName, ⟨id, e.kind⟩⟩,
        List.mem_append_left _ (List.mem_singleton_self _), refuses_of_insert_error hnative⟩
    · obtain ⟨-, rfl, -⟩ := addManaged_error hmanaged
      exact .inr ⟨id, e, rfl, halfAdded_of_error hnative hmanaged⟩

/-! ### A class and an interface with one managed name -/

def classID : Element :=
  { Element.fresh (.type .cls {}) "a.ID" with fullManagedName := some "A.ID" }

/-- With the mark of an interface it reads like the class. -/
def interfaceD : Element :=
  { Element.fresh (.type .iface {}) "a.D" with fullManagedName := some "A.ID" }

/-- The interface is refused its managed name, and is found under its native one all the same. -/
theorem run_interfaceD : ∃ r r', (Call.add 0 classID).run (.empty .strict) = .ok () r ∧
    (Call.add 1 interfaceD).run r = .error (.duplicate ⟨"A.ID", .managed, .cls, .iface⟩) r' ∧
      (r.index.size = 2 ∧ r.index.lookup "a.D" none none = .error (.typeNotFound "a.D" none)) ∧
        r'.index.size = 3 ∧ r'.index.lookup "a.D" none none = .ok 1 :=
  ⟨_, _, rfl, rfl, ⟨by decide +kernel, by decide +kernel⟩, by decide +kernel, by decide +kernel⟩

/-- An addition that is refused may change what is found and how much there is. -/
theorem changed_by_refused : ∃ r r' failure, (Call.add 0 classID).run (.empty .strict) = .ok () r ∧
    (Call.add 1 interfaceD).run r = .error failure r' ∧ r'.index.size ≠ r.index.size ∧
      r'.index.lookup "a.D" none none ≠ r.index.lookup "a.D" none none := by
  obtain ⟨r, r', hclass, hrefused, ⟨hsize, hlookup⟩, hsize', hlookup'⟩ := run_interfaceD
  exact ⟨r, r', _, hclass, hrefused, by rw [hsize, hsize']; decide, by rw [hlookup, hlookup']; nofun⟩

/-- It changes no more than an addition that is half done does. -/
theorem halfAdded_of_clashing : ∃ r r' failure,
    (Call.add 0 classID).run (.empty .strict) = .ok () r ∧
      (Call.add 1 interfaceD).run r = .error failure r' ∧ r.HalfAdded r' 1 interfaceD failure := by
  obtain ⟨r, r', hclass, hrefused, ⟨hsize, -⟩, hsize', -⟩ := run_interfaceD
  refine ⟨r, r', _, hclass, hrefused, ?_⟩
  rcases state_of_refused hrefused with ⟨rfl, -⟩ | ⟨id, e, hc, hhalf⟩
  · rw [hsize] at hsize'
    cases hsize'
  · cases hc
    exact hhalf

end Registry

end BindingTree

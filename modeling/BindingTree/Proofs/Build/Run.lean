import BindingTree.Build.Draft
import BindingTree.Proofs.Hierarchy.Places
import BindingTree.Proofs.Outcomes

/-! Runs of the operations on drafts, taken apart. A run of two operations in a row passes through a
draft in between, readings leave the draft as it is, and each edit says which draft it ends in. -/

namespace BindingTree.Build

variable {α β ι : Type} {d d' : Draft}

/-- The draft in which a run ends, whether it succeeds or fails. -/
def ending : EStateM.Result Failure Draft α → Draft
  | .ok _ d => d
  | .error _ d => d

theorem bind_run {m : Build α} {f : α → Build β} : (m >>= f) d = match m d with
    | .ok a d₁ => f a d₁
    | .error failure d₁ => .error failure d₁ := by
  change EStateM.bind m f d = _
  unfold EStateM.bind
  cases m d <;> rfl

theorem onRegistry_bind {m : EStateM Failure Registry α} {f : α → EStateM Failure Registry β} :
    onRegistry (m >>= f) = onRegistry m >>= fun a => onRegistry (f a) := by
  funext d
  have hbind : (m >>= f) d.registry = EStateM.bind m f d.registry := rfl
  rw [bind_run, onRegistry, hbind]
  unfold onRegistry EStateM.bind
  cases m d.registry <;> rfl

theorem onHierarchy_bind {m : EStateM Failure Hierarchy α} {f : α → EStateM Failure Hierarchy β} :
    onHierarchy (m >>= f) = onHierarchy m >>= fun a => onHierarchy (f a) := by
  funext d
  have hbind : (m >>= f) d.hierarchy = EStateM.bind m f d.hierarchy := rfl
  rw [bind_run, onHierarchy, hbind]
  unfold onHierarchy EStateM.bind
  cases m d.hierarchy <;> rfl

theorem bind_ok {m : Build α} {f : α → Build β} {b : β} :
    (m >>= f) d = .ok b d' ↔ ∃ a d₁, m d = .ok a d₁ ∧ f a d₁ = .ok b d' :=
  EStateM.bind_eq_ok

/-- A run of two operations in a row fails in the first or in the second. -/
theorem bind_error {m : Build α} {f : α → Build β} {failure : Failure} :
    (m >>= f) d = .error failure d' ↔
      m d = .error failure d' ∨ ∃ a d₁, m d = .ok a d₁ ∧ f a d₁ = .error failure d' :=
  EStateM.bind_eq_error

theorem pure_ok {a b : α} : (pure a : Build α) d = .ok b d' ↔ a = b ∧ d = d' := by
  change EStateM.Result.ok a d = _ ↔ _
  simp

theorem fail_ok {failure : Failure} {a : α} : (fail failure : Build α) d = .ok a d' ↔ False := by
  change EStateM.Result.error failure d = _ ↔ _
  simp

theorem hierarchy_run (d : Draft) : hierarchy d = .ok d.hierarchy d := rfl

theorem hierarchy_ok {h : Hierarchy} : hierarchy d = .ok h d' ↔ d.hierarchy = h ∧ d = d' := by
  change EStateM.Result.ok d.hierarchy d = _ ↔ _
  simp

theorem index_ok {ix : Index} : index d = .ok ix d' ↔ d.registry.index = ix ∧ d = d' := by
  change EStateM.Result.ok d.registry.index d = _ ↔ _
  simp

theorem element_ok {i : ElementId} {e : Element} :
    element i d = .ok e d' ↔ d.hierarchy.element i = e ∧ d = d' := by
  change EStateM.Result.ok (d.hierarchy.element i) d = _ ↔ _
  simp

theorem edit_ok {f : Hierarchy → Hierarchy} {u : Unit} :
    edit f d = .ok u d' ↔ { d with hierarchy := f d.hierarchy } = d' := by
  change EStateM.Result.ok () _ = _ ↔ _
  simp

theorem editElement_ok {i : ElementId} {f : Element → Element} {u : Unit} :
    editElement i f d = .ok u d' ↔ { d with hierarchy := d.hierarchy.modify i f } = d' := edit_ok

theorem notice_ok {n : Notice} {u : Unit} :
    notice n d = .ok u d' ↔ { d with registry := d.registry.notice n } = d' := by
  change EStateM.Result.ok () _ = _ ↔ _
  simp

theorem onRegistry_ok {m : EStateM Failure Registry α} {a : α} :
    onRegistry m d = .ok a d' ↔
      ∃ r, m d.registry = .ok a r ∧ { d with registry := r } = d' := by
  unfold onRegistry
  cases m d.registry <;> simp

theorem onHierarchy_ok {m : EStateM Failure Hierarchy α} {a : α} :
    onHierarchy m d = .ok a d' ↔
      ∃ h, m d.hierarchy = .ok a h ∧ { d with hierarchy := h } = d' := by
  unfold onHierarchy
  cases m d.hierarchy <;> simp

theorem ofExcept_ok {x : Except Failure α} {a : α} :
    ofExcept x d = .ok a d' ↔ x = .ok a ∧ d = d' := by
  cases x with
  | ok b => simp [ofExcept, pure_ok]
  | error failure => simp [ofExcept, fail_ok]

theorem make_ok {e : Element} {i : ElementId} :
    make e d = .ok i d' ↔
      d.hierarchy.size = i ∧ { d with hierarchy := d.hierarchy.push e } = d' := by
  simp only [make, bind_ok, hierarchy_ok, edit_ok, pure_ok]
  constructor
  · rintro ⟨_, _, ⟨rfl, rfl⟩, _, _, rfl, rfl, rfl⟩
    exact ⟨rfl, rfl⟩
  · rintro ⟨rfl, rfl⟩
    exact ⟨_, _, ⟨rfl, rfl⟩, (), _, rfl, rfl, rfl⟩

theorem addMember_ok {p c : ElementId} {u : Unit} :
    addMember p c d = .ok u d' ↔
      p ≠ c ∧ c ∉ d.hierarchy.ancestors p ∧
        { d with hierarchy := d.hierarchy.move p c } = d' := by
  simp only [addMember, bind_ok, hierarchy_ok, ofExcept_ok, edit_ok,
    Hierarchy.addMember_eq_ok]
  constructor
  · rintro ⟨_, _, ⟨rfl, rfl⟩, _, _, ⟨⟨hpc, hca, rfl⟩, rfl⟩, rfl⟩
    exact ⟨hpc, hca, rfl⟩
  · rintro ⟨hpc, hca, rfl⟩
    exact ⟨_, _, ⟨rfl, rfl⟩, _, _, ⟨⟨hpc, hca, rfl⟩, rfl⟩, rfl⟩

theorem addNative_ok {i : ElementId} {u : Unit} :
    addNative i d = .ok u d' ↔
      ∃ r, Registry.addNative i (d.hierarchy.element i) d.registry = .ok u r ∧
        { d with registry := r } = d' := by
  simp [addNative, bind_ok, element_ok, onRegistry_ok]

theorem addNative_error {i : ElementId} {failure : Failure}
    (hd : addNative i d = .error failure d') :
    ∃ r, Registry.addNative i (d.hierarchy.element i) d.registry = .error failure r := by
  rw [addNative, bind_run] at hd
  change onRegistry (Registry.addNative i (d.hierarchy.element i)) d = _ at hd
  unfold onRegistry at hd
  cases hr : Registry.addNative i (d.hierarchy.element i) d.registry with
  | ok u r =>
    rw [hr] at hd
    cases hd
  | error failure' r =>
    rw [hr] at hd
    cases hd
    exact ⟨r, rfl⟩

theorem addManaged_ok {i : ElementId} {u : Unit} :
    addManaged i d = .ok u d' ↔
      ∃ r, Registry.addManaged i (d.hierarchy.element i) d.registry = .ok u r ∧
        { d with registry := r } = d' := by
  simp [addManaged, bind_ok, element_ok, onRegistry_ok]

theorem enter_ok {i : ElementId} {u : Unit} :
    enter i d = .ok u d' ↔
      ∃ r, Registry.add i (d.hierarchy.element i) d.registry = .ok u r ∧
        { d with registry := r } = d' := by
  simp [enter, bind_ok, element_ok, onRegistry_ok]

/-- A look-up gives the element of an entry of the index and changes nothing. -/
theorem lookup_ok {name : String} {hint : Option Kind} {e : Element} {i : ElementId} :
    lookup name hint e d = .ok i d' ↔
      (∃ entry, d.registry.index.lookup? name hint = some entry ∧ entry.id = i) ∧ d = d' := by
  simp only [lookup, bind_ok, index_ok, ofExcept_ok, Index.lookup]
  constructor
  · rintro ⟨_, _, ⟨rfl, rfl⟩, hl, rfl⟩
    refine ⟨?_, rfl⟩
    split at hl
    next entry he =>
      cases hl
      exact ⟨entry, he, rfl⟩
    next => cases hl
  · rintro ⟨⟨entry, he, rfl⟩, rfl⟩
    exact ⟨_, _, ⟨rfl, rfl⟩, by rw [he], rfl⟩

theorem lookup_run (name : String) (hint : Option Kind) (e : Element) (d : Draft) :
    lookup name hint e d = match d.registry.index.lookup? name hint with
      | some entry => .ok entry.id d
      | none => .error (.typeNotFound name (some e.describe)) d := by
  unfold lookup
  rw [bind_run]
  change Build.ofExcept (d.registry.index.lookup name hint (some e)) d = _
  unfold Index.lookup
  cases d.registry.index.lookup? name hint <;> rfl

/-- A loop: what holds with the whole list ahead and is handed on by each round holds at the
end. -/
theorem forM_ok {f : ι → Build Unit} {I : List ι → Draft → Prop}
    (step : ∀ i is d d', I (i :: is) d → f i d = .ok () d' → I is d') {l : List ι}
    (hI : I l d) (hd : l.forM f d = .ok () d') : I [] d' := by
  induction l generalizing d with
  | nil =>
    obtain ⟨-, rfl⟩ := pure_ok.1 hd
    exact hI
  | cons i is ih =>
    obtain ⟨_, d₁, hi, hd⟩ := bind_ok.1 hd
    exact ih (step i is d d₁ hI hi) hd

/-- A loop that fails does so in one round, before which all goes as in a loop that succeeds. -/
theorem forM_error {f : ι → Build Unit} {I : List ι → Draft → Prop} {failure : Failure}
    (step : ∀ i is d d', I (i :: is) d → f i d = .ok () d' → I is d') {l : List ι}
    (hI : I l d) (hd : l.forM f d = .error failure d') :
    ∃ i is d₁, I (i :: is) d₁ ∧ f i d₁ = .error failure d' := by
  induction l generalizing d with
  | nil => cases hd
  | cons i is ih =>
    obtain hi | ⟨_, d₁, hi, hrest⟩ := bind_error.1 hd
    · exact ⟨i, is, d, hI, hi⟩
    · exact ih (step i is d d₁ hI hi) hrest

/-- A loop of edits is one edit. -/
theorem forM_edit_ok {f : Hierarchy → ι → Hierarchy} {l : List ι} {u : Unit} :
    (l.forM fun i => edit (f · i)) d = .ok u d' ↔
      { d with hierarchy := l.foldl f d.hierarchy } = d' := by
  induction l generalizing d with
  | nil => simp [pure_ok]
  | cons i is ih =>
    change (edit (f · i) >>= fun _ => is.forM fun i => edit (f · i)) d = _ ↔ _
    simp only [bind_ok, edit_ok, ih, List.foldl_cons]
    constructor
    · rintro ⟨_, _, rfl, rfl⟩
      rfl
    · rintro rfl
      exact ⟨(), _, rfl, rfl⟩

end BindingTree.Build

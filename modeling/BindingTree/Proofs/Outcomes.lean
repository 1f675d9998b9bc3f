import Mathlib.Data.List.Forall2

/-! Steps that may fail, taken apart where they succeed and, with a state, also where they fail; and
lists whose items correspond, taken apart where one of them is put together. -/

namespace Except

variable {ε α β : Type} {x : Except ε α} {a : α} {b : β}

theorem bind_eq_ok {f : α → Except ε β} : x >>= f = .ok b ↔ ∃ a, x = .ok a ∧ f a = .ok b := by
  cases x with
  | error e =>
    constructor
    · intro h
      cases h
    · rintro ⟨_, h, _⟩
      cases h
  | ok a =>
    constructor
    · exact fun h => ⟨a, rfl, h⟩
    · rintro ⟨_, ha, h⟩
      cases ha
      exact h

theorem unit_bind_eq_ok {x : Except ε Unit} {f : Unit → Except ε β} :
    x >>= f = .ok b ↔ x = .ok () ∧ f () = .ok b := by
  rw [bind_eq_ok]
  exact ⟨fun ⟨_, h⟩ => h, fun h => ⟨(), h⟩⟩

theorem pure_eq_ok {c : α} : (pure c : Except ε α) = .ok a ↔ c = a :=
  ⟨Except.ok.inj, congrArg Except.ok⟩

theorem map_eq_ok {f : α → β} : f <$> x = .ok b ↔ ∃ a, x = .ok a ∧ f a = b := by
  rw [map_eq_pure_bind, bind_eq_ok]
  simp only [pure_eq_ok]

theorem bind_eq_error {e : ε} {f : α → Except ε β} :
    x >>= f = .error e ↔ x = .error e ∨ ∃ a, x = .ok a ∧ f a = .error e := by
  change Except.bind x f = _ ↔ _
  cases x <;> simp [Except.bind]

theorem map_eq_error {e : ε} {f : α → β} : f <$> x = .error e ↔ x = .error e := by
  cases x <;> simp [Functor.map, Except.map]

theorem mapError_eq_ok {ε' : Type} {f : ε → ε'} : x.mapError f = .ok a ↔ x = .ok a := by
  cases x <;> simp [Except.mapError]

theorem mapError_eq_error {ε' : Type} {f : ε → ε'} {e : ε'} :
    x.mapError f = .error e ↔ ∃ e', x = .error e' ∧ f e' = e := by
  cases x <;> simp [Except.mapError]

/-- A list is gone through with success if each of its items is. -/
theorem mapM_eq_ok {f : α → Except ε β} {l : List α} {bs : List β} :
    l.mapM f = .ok bs ↔ List.Forall₂ (fun a b => f a = .ok b) l bs := by
  induction l generalizing bs with
  | nil => rw [List.mapM_nil, pure_eq_ok, List.forall₂_nil_left_iff, eq_comm]
  | cons a l ih =>
    simp only [List.mapM_cons, bind_eq_ok, pure_eq_ok, ih, List.forall₂_cons_left_iff]
    constructor
    · rintro ⟨b, hb, bs, hbs, rfl⟩
      exact ⟨b, bs, hb, hbs, rfl⟩
    · rintro ⟨b, bs, hb, hbs, rfl⟩
      exact ⟨b, hb, bs, hbs, rfl⟩

/-- A list is not gone through if one of its items is not. -/
theorem exists_of_mapM_eq_error {e : ε} {f : α → Except ε β} {l : List α}
    (hl : l.mapM f = .error e) : ∃ a ∈ l, f a = .error e := by
  induction l with
  | nil => cases hl
  | cons a l ih =>
    rw [List.mapM_cons] at hl
    rcases bind_eq_error.1 hl with ha | ⟨b, -, hrest⟩
    · exact ⟨a, List.mem_cons_self, ha⟩
    · rcases bind_eq_error.1 hrest with htail | ⟨bs, -, hpure⟩
      · obtain ⟨c, hc, he⟩ := ih htail
        exact ⟨c, List.mem_cons_of_mem _ hc, he⟩
      · cases hpure

end Except

namespace List

variable {α β : Type} {R : α → β → Prop} {l l' : List α} {m : List β}

/-- What corresponds to two lists in a row falls into two parts. -/
theorem forall₂_append_left_iff : Forall₂ R (l ++ l') m ↔
    ∃ m₁ m₂, Forall₂ R l m₁ ∧ Forall₂ R l' m₂ ∧ m = m₁ ++ m₂ := by
  constructor
  · intro h
    refine ⟨m.take l.length, m.drop l.length, ?_, ?_, (take_append_drop _ _).symm⟩
    · simpa using forall₂_take l.length h
    · simpa using forall₂_drop l.length h
  · rintro ⟨m₁, m₂, h₁, h₂, rfl⟩
    exact rel_append h₁ h₂

theorem forall₂_concat_left_iff {a : α} : Forall₂ R (l ++ [a]) m ↔
    ∃ m₁ b, Forall₂ R l m₁ ∧ R a b ∧ m = m₁ ++ [b] := by
  rw [forall₂_append_left_iff]
  constructor
  · rintro ⟨m₁, m₂, h₁, h₂, rfl⟩
    obtain ⟨b, _, hb, hnil, rfl⟩ := forall₂_cons_left_iff.1 h₂
    obtain rfl := forall₂_nil_left_iff.1 hnil
    exact ⟨m₁, b, h₁, hb, rfl⟩
  · rintro ⟨m₁, b, h₁, hb, rfl⟩
    exact ⟨m₁, [b], h₁, .cons hb .nil, rfl⟩

theorem Forall₂.exists_left {b : β} (h : Forall₂ R l m) (hb : b ∈ m) : ∃ a ∈ l, R a b := by
  induction h with
  | nil => cases hb
  | cons hr _ ih =>
    rcases mem_cons.1 hb with rfl | hb
    · exact ⟨_, mem_cons_self, hr⟩
    · obtain ⟨a, ha, hr⟩ := ih hb
      exact ⟨a, mem_cons_of_mem _ ha, hr⟩

end List

namespace EStateM

variable {ε σ α β : Type} {m : EStateM ε σ α} {f : α → EStateM ε σ β} {s s' : σ} {b : β} {e : ε}

theorem bind_eq_ok : (m >>= f) s = .ok b s' ↔ ∃ a s₁, m s = .ok a s₁ ∧ f a s₁ = .ok b s' := by
  change EStateM.bind m f s = _ ↔ _
  unfold EStateM.bind
  cases m s <;> simp

/-- Two steps in a row fail in the first or, after it, in the second. -/
theorem bind_eq_error : (m >>= f) s = .error e s' ↔
    m s = .error e s' ∨ ∃ a s₁, m s = .ok a s₁ ∧ f a s₁ = .error e s' := by
  change EStateM.bind m f s = _ ↔ _
  unfold EStateM.bind
  cases m s <;> simp

end EStateM

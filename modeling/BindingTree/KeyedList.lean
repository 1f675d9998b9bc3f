/-! Values under keys, in the order in which the keys first came. A key that comes again keeps its
place and takes the new value. The view of a keyed list is `get?`; each operation says what it
does to the view and to the size. -/

namespace BindingTree

structure KeyedList (κ α : Type) where
  entries : List (κ × α) := []
  nodup : (entries.map Prod.fst).Nodup := by exact .nil

namespace KeyedList

variable {κ α : Type} [DecidableEq κ]

/-- Puts a value under a key of a list of pairs. -/
def putIn (k : κ) (a : α) : List (κ × α) → List (κ × α)
  | [] => [(k, a)]
  | (l, b) :: rest => if l = k then (k, a) :: rest else (l, b) :: putIn k a rest

theorem mem_keys_putIn {k l : κ} {a : α} {entries : List (κ × α)} :
    l ∈ (putIn k a entries).map Prod.fst ↔ l = k ∨ l ∈ entries.map Prod.fst := by
  induction entries with
  | nil => simp [putIn]
  | cons e rest ih =>
    obtain ⟨m, b⟩ := e
    rw [putIn]
    split
    next h => subst h; simp
    next h => simp only [List.map_cons, List.mem_cons, ih]; grind

theorem nodup_putIn {k : κ} {a : α} {entries : List (κ × α)}
    (h : (entries.map Prod.fst).Nodup) : ((putIn k a entries).map Prod.fst).Nodup := by
  induction entries with
  | nil => simp [putIn]
  | cons e rest ih =>
    obtain ⟨m, b⟩ := e
    rw [List.map_cons, List.nodup_cons] at h
    rw [putIn]
    split
    next hm => subst hm; simpa using h
    next hm =>
      rw [List.map_cons, List.nodup_cons, mem_keys_putIn]
      exact ⟨by simp only [not_or]; exact ⟨hm, h.1⟩, ih h.2⟩

def get? (m : KeyedList κ α) (k : κ) : Option α := (m.entries.find? (·.1 = k)).map Prod.snd

def put (m : KeyedList κ α) (k : κ) (a : α) : KeyedList κ α :=
  ⟨putIn k a m.entries, nodup_putIn m.nodup⟩

def erase (m : KeyedList κ α) (k : κ) : KeyedList κ α :=
  ⟨m.entries.filter (·.1 ≠ k), m.nodup.sublist (List.filter_sublist.map _)⟩

def keys (m : KeyedList κ α) : List κ := m.entries.map Prod.fst

def size (m : KeyedList κ α) : Nat := m.entries.length

instance : Inhabited (KeyedList κ α) := ⟨{}⟩

theorem get?_put (m : KeyedList κ α) (k l : κ) (a : α) :
    (m.put k a).get? l = if l = k then some a else m.get? l := by
  obtain ⟨entries, _⟩ := m
  simp only [get?, put]
  induction entries with
  | nil => by_cases h : k = l <;> simp [putIn, h, eq_comm]
  | cons e rest ih =>
    obtain ⟨m, b⟩ := e
    have ih := ih (List.nodup_cons.1 ‹_›).2
    rw [putIn]
    by_cases hm : m = k
    · subst hm
      by_cases hl : l = m
      · subst hl; simp
      · simp [hl, Ne.symm hl]
    · by_cases hl : l = m
      · subst hl; simp [hm]
      · simp [hm, Ne.symm hl, ih]

theorem get?_erase (m : KeyedList κ α) (k l : κ) :
    (m.erase k).get? l = if l = k then none else m.get? l := by
  obtain ⟨entries, _⟩ := m
  simp only [get?, erase, List.find?_filter]
  by_cases h : l = k
  · subst h
    simp
  · have : (fun e : κ × α => decide (e.1 ≠ k) && decide (e.1 = l)) = fun e => decide (e.1 = l) := by
      funext e
      by_cases he : e.1 = l <;> simp [he, h]
    simp only [h, ite_false]
    rw [show (fun e : κ × α => decide (decide (e.1 ≠ k) = true ∧ decide (e.1 = l) = true))
      = fun e => decide (e.1 = l) by simpa [Bool.decide_and] using this]

end KeyedList

end BindingTree

import BindingTree.Json.Basic

/-! Attributes kept by name. The names ascend, so that two collections with the same attributes
are equal. -/

namespace BindingTree

structure Attributes where
  entries : List (String × String) := []
  ascending : entries.Pairwise (fun a b => a.1 < b.1) := by exact .nil
  deriving DecidableEq, Repr

namespace Attributes

def empty : Attributes := {}

instance : Inhabited Attributes := ⟨empty⟩

/-- Puts an entry in its place; an entry of the same name gives way. -/
def place (key value : String) : List (String × String) → List (String × String)
  | [] => [(key, value)]
  | (k, v) :: rest =>
    if key < k then (key, value) :: (k, v) :: rest
    else if k < key then (k, v) :: place key value rest
    else (key, value) :: rest

theorem mem_place {key value : String} {entries : List (String × String)} {e : String × String}
    (h : e ∈ place key value entries) : e = (key, value) ∨ e ∈ entries := by
  induction entries with
  | nil => simpa [place] using h
  | cons x rest ih =>
    obtain ⟨k, v⟩ := x
    rw [place] at h
    split at h
    · simpa using h
    · split at h
      · rcases List.mem_cons.1 h with rfl | h
        · simp
        · rcases ih h with h | h <;> simp [h]
      · rcases List.mem_cons.1 h with h | h <;> simp [h]

theorem pairwise_place {key value : String} {entries : List (String × String)}
    (h : entries.Pairwise fun a b => a.1 < b.1) :
    (place key value entries).Pairwise fun a b => a.1 < b.1 := by
  induction entries with
  | nil => simp [place]
  | cons x rest ih =>
    obtain ⟨k, v⟩ := x
    obtain ⟨hx, hr⟩ := List.pairwise_cons.1 h
    rw [place]
    split
    next hk =>
      refine List.pairwise_cons.2 ⟨fun e he => ?_, h⟩
      rcases List.mem_cons.1 he with rfl | he
      · exact hk
      · exact String.lt_trans hk (hx e he)
    next hk =>
      split
      next hk' =>
        refine List.pairwise_cons.2 ⟨fun e he => ?_, ih hr⟩
        rcases mem_place he with rfl | he
        · exact hk'
        · exact hx e he
      next hk' =>
        have : key = k := String.le_antisymm (String.not_lt.1 hk') (String.not_lt.1 hk)
        subst this
        exact List.pairwise_cons.2 ⟨hx, hr⟩

def insert (a : Attributes) (key value : String) : Attributes :=
  ⟨place key value a.entries, pairwise_place a.ascending⟩

/-- Reads the members of an object; of a repeated key the last value stands. -/
def ofMembers (a : Attributes) : List (Json.Key × Json) → Except Json.Fault Attributes
  | [] => .ok a
  | (k, .str s) :: ms => do ofMembers (a.insert (← k.read) s) ms
  | (k, v) :: _ => do let _ ← k.read; .error v.refusal

def ofJson : Json → Except Json.Fault Attributes
  | .obj members broken => do
    let a ← ofMembers {} members
    Json.closed broken
    return a
  | .deep (.obj _ _) => .error .malformed
  | v => .error v.refusal

def toJson (a : Attributes) : Json := Json.object (a.entries.map fun e => (e.1, .str e.2))

end Attributes

end BindingTree

import BindingTree.Proofs.Record.Gathering
import Mathlib.Logic.Relation

/-! Edits of a forest that should not matter: members of an object change places, and members that
the reader does not own come or go. What the reader owns rests on where the object stands, and for a
record on the record's kind. No edit touches anything but lists and objects, and an edited value can
be read or passed over if the value could. -/

namespace BindingTree

open Json (Fault Key)

/-- Values as they stand in a text, of which no number is a floating-point one. -/
inductive Json.IsValue : Json → Prop
  | null : IsValue .null
  | bool (b : Bool) : IsValue (.bool b)
  | nat (n : Nat) : IsValue (.nat n)
  | neg (n : Nat) : IsValue (.neg n)
  | str (s : String) : IsValue (.str s)
  | list {items : List Json} (hi : ∀ v ∈ items, IsValue v) : IsValue (Json.list items)
  | object {members : List (String × Json)} (hm : ∀ m ∈ members, IsValue m.2) :
      IsValue (Json.object members)

theorem Json.IsValue.check {w : Json} (hw : w.IsValue) : w.check = .ok () := by
  induction hw with
  | null | bool | nat | neg | str => rfl
  | list _ ih => exact check_arr_eq_ok.2 ⟨ih, rfl⟩
  | object _ ih =>
    refine check_obj_eq_ok.2 ⟨fun m hm => ?_, rfl⟩
    obtain ⟨e, he, rfl⟩ := List.mem_map.1 hm
    exact ⟨⟨e.1, rfl⟩, ih e he⟩

/-- Lists and objects, marked or not. -/
def Json.IsBracket : Json → Prop
  | .arr _ _ | .obj _ _ | .deep _ => True
  | _ => False

/-- Shapes under which neither a list nor an object is read. -/
def Shape.isPlain : Shape → Bool
  | .choice _ _ => false
  | _ => true

namespace Record

/-- Where a value stands in a forest. -/
inductive Place where
  | forest
  | record
  | location
  | deprecation
  | attributes
  /-- Anywhere else. -/
  | other
  deriving DecidableEq

namespace Place

/-- Where the items of a list stand. -/
def item : Place → Place
  | .forest => .record
  | _ => .other

/-- Where the value under a key of an object stands. -/
def below : Place → Key → Place
  | .record, .text "children" => .forest
  | .record, .text "location" => .location
  | .record, .text "deprecation" => .deprecation
  | .record, .text "other_attributes" => .attributes
  | _, _ => .other

end Place

/-- The members of a record tell its kind. -/
def HasTag (ms : List (Key × Json)) (tag : Tag) : Prop :=
  ∃ v, (.text "kind", v) ∈ ms ∧ Tag.ofJson v = .ok tag

/-- The reader does not own a key of an object with the given members. In a record it owns the common
keys and those of the record's kind. -/
def Place.Foreign (ms : List (Key × Json)) (key : String) : Place → Prop
  | .record => key ∉ "kind" :: commonKeys ∧
      ∃ tag, HasTag ms tag ∧ key ∉ tag.shapes.flatten.map Prod.fst
  | .location => key ∉ Location.shapes.map Prod.fst
  | .deprecation => key ∉ Deprecation.shapes.map Prod.fst
  | _ => False

/-- One edit of a value that stands at a place, where `n` brackets may be opened inside one another.
-/
inductive Edit : Place → Nat → Json → Json → Prop
  | permute {p : Place} {n : Nat} {ms ms' : List (Key × Json)} {broken : Option Fault}
      (hp : ms.Perm ms') : Edit p n (.obj ms broken) (.obj ms' broken)
  | insert {p : Place} {n : Nat} {ms₁ ms₂ : List (Key × Json)} {broken : Option Fault}
      {key : String} {w : Json} (hk : p.Foreign (ms₁ ++ ms₂) key) (hw : w.IsValue)
      (hd : w.depth < n) :
      Edit p n (.obj (ms₁ ++ ms₂) broken) (.obj (ms₁ ++ (.text key, w) :: ms₂) broken)
  | delete {p : Place} {n : Nat} {ms₁ ms₂ : List (Key × Json)} {broken : Option Fault}
      {key : String} {v : Json} (hk : p.Foreign (ms₁ ++ (.text key, v) :: ms₂) key) :
      Edit p n (.obj (ms₁ ++ (.text key, v) :: ms₂) broken) (.obj (ms₁ ++ ms₂) broken)
  | item {p : Place} {n : Nat} {vs₁ vs₂ : List Json} {broken : Option Fault} {v w : Json}
      (he : Edit p.item (n - 1) v w) :
      Edit p n (.arr (vs₁ ++ v :: vs₂) broken) (.arr (vs₁ ++ w :: vs₂) broken)
  | member {p : Place} {n : Nat} {ms₁ ms₂ : List (Key × Json)} {broken : Option Fault} {k : Key}
      {v w : Json} (he : Edit (p.below k) (n - 1) v w) :
      Edit p n (.obj (ms₁ ++ (k, v) :: ms₂) broken) (.obj (ms₁ ++ (k, w) :: ms₂) broken)

/-- `w` stands at the place `q` within a value at the place `p`. -/
inductive Within : Place → Json → Place → Json → Prop
  | self {p : Place} {v : Json} : Within p v p v
  | item {p q : Place} {vs : List Json} {broken : Option Fault} {v w : Json} (hv : v ∈ vs)
      (hw : Within p.item v q w) : Within p (.arr vs broken) q w
  | member {p q : Place} {ms : List (Key × Json)} {broken : Option Fault} {k : Key} {v w : Json}
      (hm : (k, v) ∈ ms) (hw : Within (p.below k) v q w) : Within p (.obj ms broken) q w

/-- No object within a forest repeats a key. -/
def Distinct (v : Json) : Prop :=
  ∀ q ms broken, Within .forest v q (.obj ms broken) → (ms.map Prod.fst).Nodup

/-- No attributes within a value at a place repeat a key. -/
def Settled (p : Place) (v : Json) : Prop :=
  ∀ ms broken, Within p v .attributes (.obj ms broken) → (ms.map Prod.fst).Nodup

variable {p q : Place} {n : Nat} {v w u : Json} {ms ms' : List (Key × Json)} {vs : List Json}
  {broken : Option Fault} {key : String} {k : Key}

/-! ### Places -/

theorem Place.below_of_foreign (hk : p.Foreign ms key) : p.below (.text key) = .other := by
  unfold Place.below
  split
  case h_5 => rfl
  all_goals
    rename_i hkey
    cases hkey
    exact absurd hk.1 (by decide)

theorem eq_other_of_within (hw : Within .other v q w) : q = .other := by
  generalize hp : Place.other = p at hw
  induction hw with
  | self => rfl
  | item _ _ ih =>
    subst hp
    exact ih rfl
  | member _ _ ih =>
    subst hp
    exact ih rfl

theorem settled_arr : Settled p (.arr vs broken) ↔ ∀ v ∈ vs, Settled p.item v := by
  constructor
  · exact fun h v hv ms broken hw => h ms broken (.item hv hw)
  · intro h ms broken hw
    cases hw with
    | item hv hw => exact h _ hv ms broken hw

theorem settled_obj : Settled p (.obj ms broken) ↔
    (p = .attributes → (ms.map Prod.fst).Nodup) ∧ ∀ m ∈ ms, Settled (p.below m.1) m.2 := by
  constructor
  · intro h
    refine ⟨?_, fun m hm ns broken hw => h ns broken (.member hm hw)⟩
    rintro rfl
    exact h ms broken .self
  · rintro ⟨hself, hbelow⟩ ns broken hw
    cases hw with
    | self => exact hself rfl
    | member hm hw => exact hbelow _ hm ns broken hw

theorem settled_other : Settled .other v := by
  intro ms broken hw
  cases eq_other_of_within hw

theorem Distinct.settled (hv : Distinct v) : Settled .forest v := fun ms broken hw =>
  hv .attributes ms broken hw

/-- Edits repeat no key of attributes. -/
theorem Edit.settled (he : Edit p n v w) (hs : Settled p v) : Settled p w := by
  induction he with
  | permute hp =>
    rw [settled_obj] at hs ⊢
    exact ⟨fun h => (hp.map Prod.fst).nodup_iff.1 (hs.1 h), fun m hm => hs.2 m (hp.mem_iff.2 hm)⟩
  | insert hk hw hd =>
    rw [settled_obj] at hs ⊢
    refine ⟨?_, ?_⟩
    · rintro rfl
      exact hk.elim
    · rw [List.forall_mem_append, List.forall_mem_cons, Place.below_of_foreign hk]
      rw [List.forall_mem_append] at hs
      exact ⟨hs.2.1, settled_other, hs.2.2⟩
  | delete hk =>
    rw [settled_obj] at hs ⊢
    refine ⟨?_, ?_⟩
    · rintro rfl
      exact hk.elim
    · rw [List.forall_mem_append, List.forall_mem_cons] at hs
      exact List.forall_mem_append.2 ⟨hs.2.1, hs.2.2.2⟩
  | item he ih =>
    rw [settled_arr, List.forall_mem_append, List.forall_mem_cons] at hs ⊢
    exact ⟨hs.1, ih hs.2.1, hs.2.2⟩
  | member he ih =>
    rw [settled_obj, List.forall_mem_append, List.forall_mem_cons] at hs ⊢
    exact ⟨fun h => by simpa using hs.1 h, hs.2.1, ih hs.2.2.1, hs.2.2.2⟩

/-! ### Values that are only looked through -/

/-- An edited value can be passed over if the value could. -/
theorem Edit.pass (he : Edit p n v w) (hv : v.pass = .ok ()) : w.pass = .ok () := by
  induction he with
  | permute hp =>
    rw [Json.pass_obj_eq_ok] at hv ⊢
    exact ⟨fun m hm => hv.1 m (hp.mem_iff.2 hm), hv.2⟩
  | insert hk hw hd =>
    rw [Json.pass_obj_eq_ok, List.forall_mem_append] at hv ⊢
    exact ⟨⟨hv.1.1, List.forall_mem_cons.2 ⟨⟨rfl, Json.pass_of_check _ hw.check⟩, hv.1.2⟩⟩, hv.2⟩
  | delete hk =>
    rw [Json.pass_obj_eq_ok, List.forall_mem_append] at hv ⊢
    exact ⟨⟨hv.1.1, (List.forall_mem_cons.1 hv.1.2).2⟩, hv.2⟩
  | item he ih =>
    rw [Json.pass_arr_eq_ok, List.forall_mem_append, List.forall_mem_cons] at hv ⊢
    exact ⟨⟨hv.1.1, ih hv.1.2.1, hv.1.2.2⟩, hv.2⟩
  | member he ih =>
    rw [Json.pass_obj_eq_ok, List.forall_mem_append, List.forall_mem_cons] at hv ⊢
    exact ⟨⟨hv.1.1, ⟨hv.1.2.1.1, ih hv.1.2.1.2⟩, hv.1.2.2⟩, hv.2⟩

/-- An edited value can be read, whatever its type, if the value could. -/
theorem Edit.check (he : Edit p n v w) (hv : (v.limit n).check = .ok ()) :
    (w.limit n).check = .ok () := by
  induction he with
  | permute hp =>
    rw [Json.check_limit_obj_eq_ok] at hv ⊢
    exact ⟨hv.1, fun m hm => hv.2.1 m (hp.mem_iff.2 hm), hv.2.2⟩
  | @insert p n ms₁ ms₂ broken key w hk hw hd =>
    rw [Json.check_limit_obj_eq_ok, List.forall_mem_append] at hv ⊢
    have hlimit : w.limit (n - 1) = w := Json.limit_of_depth_le w (by omega)
    have hnew : (w.limit (n - 1)).check = .ok () := by rw [hlimit, hw.check]
    exact ⟨hv.1, ⟨hv.2.1.1, List.forall_mem_cons.2 ⟨⟨⟨key, rfl⟩, hnew⟩, hv.2.1.2⟩⟩, hv.2.2⟩
  | delete hk =>
    rw [Json.check_limit_obj_eq_ok, List.forall_mem_append] at hv ⊢
    exact ⟨hv.1, ⟨hv.2.1.1, (List.forall_mem_cons.1 hv.2.1.2).2⟩, hv.2.2⟩
  | item he ih =>
    rw [Json.check_limit_arr_eq_ok, List.forall_mem_append, List.forall_mem_cons] at hv ⊢
    exact ⟨hv.1, ⟨hv.2.1.1, ih hv.2.1.2.1, hv.2.1.2.2⟩, hv.2.2⟩
  | member he ih =>
    rw [Json.check_limit_obj_eq_ok, List.forall_mem_append, List.forall_mem_cons] at hv ⊢
    exact ⟨hv.1, ⟨hv.2.1.1, ⟨hv.2.1.2.1.1, ih hv.2.1.2.1.2⟩, hv.2.1.2.2⟩, hv.2.2⟩

/-! ### Values that are read -/

/-- Edits touch lists and objects only. -/
theorem Edit.isBracket (he : Edit p n v w) : (v.limit n).IsBracket := by
  cases he <;> cases n <;> trivial

/-- Where no bracket may be opened, an edited value cannot be read. -/
theorem Edit.limit_zero (he : Edit p 0 v w) : ∃ u, v.limit 0 = .deep u := by
  cases he <;> exact ⟨_, rfl⟩

theorem readString_of_bracket (hv : v.IsBracket) : v.readString = .error .mistyped := by
  cases v <;> first | exact hv.elim | rfl

theorem readOptionalString_of_bracket (hv : v.IsBracket) :
    v.readOptionalString = .error .mistyped := by
  cases v <;> first | exact hv.elim | rfl

/-- A reader of plain shapes reads no list or object. -/
theorem not_read_of_bracket {shape : Shape} (hs : shape.isPlain) (hv : v.IsBracket) {x : Slot} :
    shape.read v ≠ .ok x := by
  cases shape with
  | choice => cases hs
  | flag | text | optionalText | number | visibility =>
    cases v <;> first | exact hv.elim | (intro h; cases h)

end Record

end BindingTree

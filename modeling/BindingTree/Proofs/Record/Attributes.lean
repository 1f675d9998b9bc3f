import BindingTree.Proofs.Record.Gathering
import Mathlib.Data.List.Sort

/-! Attributes as JSON. The names of attributes ascend, so what they are rests on their entries alone:
they are read back from what they are written as, and members that repeat no key may stand in any
order. -/

namespace BindingTree.Attributes

open Json (Key)

variable {a b : Attributes} {key key' value value' : String} {entries l : List (String × String)}
  {e : String × String} {ms ms' : List (Key × Json)}

theorem ext_entries (h : a.entries = b.entries) : a = b := by
  cases a
  cases b
  cases h
  rfl

/-! ### Reading what was written -/

/-- A name after all others goes to the end. -/
theorem place_last (h : ∀ e ∈ entries, e.1 < key) :
    place key value entries = entries ++ [(key, value)] := by
  induction entries with
  | nil => rfl
  | cons e entries ih =>
    obtain ⟨k, w⟩ := e
    obtain ⟨hk, hrest⟩ := List.forall_mem_cons.1 h
    have hnot : ¬ key < k := fun hlt => String.lt_irrefl k (String.lt_trans hk hlt)
    rw [place, if_neg hnot, if_pos hk, ih hrest, List.cons_append]

theorem ofMembers_ascending (h : (a.entries ++ l).Pairwise fun e e' => e.1 < e'.1) :
    ∃ b, a.ofMembers (textual (l.map fun e => (e.1, .str e.2))) = .ok b ∧
      b.entries = a.entries ++ l := by
  induction l generalizing a with
  | nil => exact ⟨a, rfl, (List.append_nil _).symm⟩
  | cons e l ih =>
    have hlast : (a.insert e.1 e.2).entries = a.entries ++ [e] :=
      place_last fun e' he' => (List.pairwise_append.1 h).2.2 e' he' e List.mem_cons_self
    have happend : a.entries ++ e :: l = (a.insert e.1 e.2).entries ++ l := by simp [hlast]
    rw [happend] at h ⊢
    exact ih h

theorem ofJson_toJson (a : Attributes) : ofJson a.toJson = .ok a := by
  obtain ⟨b, hb, hentries⟩ := ofMembers_ascending (a := {}) (l := a.entries) a.ascending
  have hab : b = a := ext_entries hentries
  change (do let a ← ofMembers {} (textual _); _) = _
  rw [hb, hab]
  rfl

/-! ### Reading in any order -/

theorem mem_place_iff (h : entries.Pairwise fun e e' => e.1 < e'.1) :
    e ∈ place key value entries ↔ e = (key, value) ∨ e.1 ≠ key ∧ e ∈ entries := by
  induction entries with
  | nil => simp [place]
  | cons x rest ih =>
    obtain ⟨k, v⟩ := x
    obtain ⟨hx, hrest⟩ := List.pairwise_cons.1 h
    rw [place]
    split
    next hk =>
      -- All names lie behind the new one.
      have hne : ∀ e' ∈ (k, v) :: rest, e'.1 ≠ key := by
        rintro e' he' rfl
        rcases List.mem_cons.1 he' with rfl | he'
        · exact String.lt_irrefl _ hk
        · exact String.lt_irrefl _ (String.lt_trans hk (hx e' he'))
      rw [List.mem_cons]
      exact or_congr_right ⟨fun he => ⟨hne e he, he⟩, fun he => he.2⟩
    next hk =>
      split
      next hk' =>
        have hne : k ≠ key := fun h => String.lt_irrefl _ (h ▸ hk')
        rw [List.mem_cons, List.mem_cons, ih hrest]
        grind
      next hk' =>
        obtain rfl : key = k := String.le_antisymm (String.not_lt.1 hk') (String.not_lt.1 hk)
        have hne : ∀ e' ∈ rest, e'.1 ≠ key := fun e' he' h => String.lt_irrefl _ (h ▸ hx e' he')
        rw [List.mem_cons, List.mem_cons]
        grind

theorem ext_mem (h : ∀ e, e ∈ a.entries ↔ e ∈ b.entries) : a = b := by
  have hirrefl : Std.Irrefl fun e e' : String × String => e.1 < e'.1 := ⟨fun e => String.lt_irrefl _⟩
  have hantisymm : Std.Antisymm fun e e' : String × String => e.1 < e'.1 :=
    ⟨fun _ _ h h' => absurd (String.lt_trans h h') (String.lt_irrefl _)⟩
  exact ext_entries (a.ascending.eq_of_mem_iff b.ascending h)

/-- Entries of different names may be put in either order. -/
theorem insert_comm (h : key ≠ key') :
    (a.insert key value).insert key' value' = (a.insert key' value').insert key value := by
  refine ext_mem fun e => ?_
  simp only [insert, mem_place_iff a.ascending, mem_place_iff (pairwise_place a.ascending)]
  grind

/-- An object is read as attributes just when all its values are texts; its members are then put in
one after another. -/
theorem ofMembers_eq_ok : a.ofMembers ms = .ok b ↔ ∃ l : List (String × String),
    ms = l.map (fun e => (Key.text e.1, Json.str e.2)) ∧
      b = l.foldl (fun a e => a.insert e.1 e.2) a := by
  constructor
  · intro h
    induction ms generalizing a with
    | nil =>
      cases h
      exact ⟨[], rfl, rfl⟩
    | cons m ms ih =>
      obtain ⟨k, v⟩ := m
      cases v with
      | str s =>
        obtain ⟨key, hk, h⟩ := Except.bind_eq_ok.1 h
        obtain rfl := Json.Key.read_eq_ok.1 hk
        obtain ⟨l, rfl, hb⟩ := ih h
        exact ⟨(key, s) :: l, rfl, hb⟩
      | _ =>
        obtain ⟨_, _, h⟩ := Except.bind_eq_ok.1 h
        cases h
  · rintro ⟨l, rfl, rfl⟩
    induction l generalizing a with
    | nil => rfl
    | cons e l ih => exact ih

/-- Attributes that repeat no key may stand in any order. -/
theorem ofMembers_perm (hp : ms.Perm ms') (hn : (ms.map Prod.fst).Nodup)
    (h : a.ofMembers ms = .ok b) : a.ofMembers ms' = .ok b := by
  obtain ⟨l, rfl, rfl⟩ := ofMembers_eq_ok.1 h
  obtain ⟨l', hl', hperm⟩ := List.perm_comp_forall₂ hp.symm
    (List.forall₂_map_left_iff.2 (List.forall₂_same.2 fun e _ => rfl) :
      List.Forall₂ (fun m e => m = (Key.text e.1, Json.str e.2)) _ l)
  have hms' : ms' = l'.map fun e => (Key.text e.1, Json.str e.2) := by
    rwa [← List.forall₂_eq_eq_eq, List.forall₂_map_right_iff]
  refine ofMembers_eq_ok.2 ⟨l', hms', hperm.symm.foldl_eq' (fun e he e' he' a => ?_) a⟩
  by_cases heq : e = e'
  · rw [heq]
  · refine insert_comm fun hk => heq ?_
    rw [List.map_map] at hn
    exact List.inj_on_of_nodup_map hn he he' (congrArg Key.text hk)

end BindingTree.Attributes

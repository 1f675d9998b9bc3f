import BindingTree.Json.Basic
import BindingTree.Proofs.Outcomes

/-! Reading JSON values, passing them over, and the nesting limit. A tree within the limit has no
marks, and marks do not matter where a value is only passed over. -/

namespace BindingTree.Json

variable {n : Nat} {key : String} {k : Key} {items : List Json} {members : List (Key × Json)}
  {broken : Option Fault}

theorem Key.read_eq_ok : k.read = .ok key ↔ k = .text key := by
  cases k <;> simp [Key.read]

theorem limitItems_eq_map : limitItems n items = items.map (limit n) := by
  induction items with
  | nil => rfl
  | cons v vs ih => rw [limitItems, ih, List.map_cons]

theorem limitMembers_eq_map :
    limitMembers n members = members.map fun m => (m.1, m.2.limit n) := by
  induction members with
  | nil => rfl
  | cons m ms ih => rw [limitMembers, ih, List.map_cons]

mutual

/-- A tree within the limit stays as it is. -/
theorem limit_of_depth_le : ∀ (v : Json) {n : Nat}, v.depth ≤ n → v.limit n = v
  | .arr items broken, 0, h => absurd h (by simp [depth])
  | .arr items broken, n + 1, h => by
    rw [depth, Nat.add_le_add_iff_right] at h
    rw [limit, limitItems_of_depth_le items h]
  | .obj members broken, 0, h => absurd h (by simp [depth])
  | .obj members broken, n + 1, h => by
    rw [depth, Nat.add_le_add_iff_right] at h
    rw [limit, limitMembers_of_depth_le members h]
  | .null, _, _ | .bool _, _, _ | .nat _, _, _ | .neg _, _, _ | .real _, _, _ | .str _, _, _
  | .garbled, _, _ | .deep _, _, _ | .absent, _, _ | .brokenText _ _, _, _
  | .brokenValue _ _, _, _ => rfl

theorem limitItems_of_depth_le : ∀ (vs : List Json) {n : Nat}, depth.depthItems vs ≤ n →
    limitItems n vs = vs
  | [], _, _ => rfl
  | v :: vs, n, h => by
    rw [depth.depthItems, Nat.max_le] at h
    rw [limitItems, limit_of_depth_le v h.1, limitItems_of_depth_le vs h.2]

theorem limitMembers_of_depth_le : ∀ (ms : List (Key × Json)) {n : Nat},
    depth.depthMembers ms ≤ n → limitMembers n ms = ms
  | [], _, _ => rfl
  | (k, v) :: ms, n, h => by
    rw [depth.depthMembers, Nat.max_le] at h
    rw [limitMembers, limit_of_depth_le v h.1, limitMembers_of_depth_le ms h.2]

end

mutual

/-- Passing a value over does not meet the limit. -/
theorem pass_limit : ∀ (v : Json) (n : Nat), (v.limit n).pass = v.pass
  | .arr items broken, 0 => rfl
  | .arr items broken, n + 1 => by rw [limit, pass, pass, passItems_limit]
  | .obj members broken, 0 => rfl
  | .obj members broken, n + 1 => by rw [limit, pass, pass, passMembers_limit]
  | .null, _ | .bool _, _ | .nat _, _ | .neg _, _ | .real _, _ | .str _, _
  | .garbled, _ | .deep _, _ | .absent, _ | .brokenText _ _, _ | .brokenValue _ _, _ => rfl

theorem passItems_limit : ∀ (vs : List Json) (n : Nat), passItems (limitItems n vs) = passItems vs
  | [], _ => rfl
  | v :: vs, n => by rw [limitItems, passItems, passItems, pass_limit v n, passItems_limit vs n]

theorem passMembers_limit : ∀ (ms : List (Key × Json)) (n : Nat),
    passMembers (limitMembers n ms) = passMembers ms
  | [], _ => rfl
  | (k, v) :: ms, n => by
    rw [limitMembers, passMembers, passMembers, pass_limit v n, passMembers_limit ms n]

end

theorem closed_eq_ok : closed broken = .ok () ↔ broken = none := by
  cases broken with
  | none => simp [closed]
  | some fault => simp [closed]

theorem checkItems_eq_ok : checkItems items = .ok () ↔ ∀ v ∈ items, v.check = .ok () := by
  induction items with
  | nil => simp [checkItems]
  | cons v vs ih => rw [checkItems, Except.unit_bind_eq_ok, ih, List.forall_mem_cons]

theorem checkMembers_eq_ok : checkMembers members = .ok () ↔
    ∀ m ∈ members, (∃ key, m.1 = .text key) ∧ m.2.check = .ok () := by
  induction members with
  | nil => simp [checkMembers]
  | cons m ms ih =>
    simp only [checkMembers, Except.bind_eq_ok (α := String), Except.unit_bind_eq_ok,
      Key.read_eq_ok, ih, List.forall_mem_cons, ← exists_and_right, and_assoc]

theorem passItems_eq_ok : passItems items = .ok () ↔ ∀ v ∈ items, v.pass = .ok () := by
  induction items with
  | nil => simp [passItems]
  | cons v vs ih => rw [passItems, Except.unit_bind_eq_ok, ih, List.forall_mem_cons]

theorem passMembers_eq_ok : passMembers members = .ok () ↔
    ∀ m ∈ members, m.1.pass = .ok () ∧ m.2.pass = .ok () := by
  induction members with
  | nil => simp [passMembers]
  | cons m ms ih =>
    rw [passMembers, Except.unit_bind_eq_ok, Except.unit_bind_eq_ok, ih, List.forall_mem_cons,
      and_assoc]

theorem check_arr_eq_ok : (arr items broken).check = .ok () ↔
    (∀ v ∈ items, v.check = .ok ()) ∧ broken = none := by
  rw [check, Except.unit_bind_eq_ok, checkItems_eq_ok, closed_eq_ok]

theorem check_obj_eq_ok : (obj members broken).check = .ok () ↔
    (∀ m ∈ members, (∃ key, m.1 = .text key) ∧ m.2.check = .ok ()) ∧ broken = none := by
  rw [check, Except.unit_bind_eq_ok, checkMembers_eq_ok, closed_eq_ok]

theorem pass_arr_eq_ok : (arr items broken).pass = .ok () ↔
    (∀ v ∈ items, v.pass = .ok ()) ∧ broken = none := by
  rw [pass, Except.unit_bind_eq_ok, passItems_eq_ok, closed_eq_ok]

theorem pass_obj_eq_ok : (obj members broken).pass = .ok () ↔
    (∀ m ∈ members, m.1.pass = .ok () ∧ m.2.pass = .ok ()) ∧ broken = none := by
  rw [pass, Except.unit_bind_eq_ok, passMembers_eq_ok, closed_eq_ok]

theorem check_limit_arr_eq_ok : ((arr items broken).limit n).check = .ok () ↔
    0 < n ∧ (∀ v ∈ items, (v.limit (n - 1)).check = .ok ()) ∧ broken = none := by
  cases n with
  | zero => simp [limit, check]
  | succ n => simp [limit, check_arr_eq_ok, limitItems_eq_map]

theorem check_limit_obj_eq_ok : ((obj members broken).limit n).check = .ok () ↔
    0 < n ∧ (∀ m ∈ members, (∃ key, m.1 = .text key) ∧ (m.2.limit (n - 1)).check = .ok ()) ∧
      broken = none := by
  cases n with
  | zero => simp [limit, check]
  | succ n => simp only [limit, check_obj_eq_ok, limitMembers_eq_map, List.forall_mem_map,
      Nat.zero_lt_succ, true_and, Nat.add_sub_cancel]

mutual

/-- What can be read can be passed over. -/
theorem pass_of_check : ∀ (v : Json), v.check = .ok () → v.pass = .ok ()
  | .arr items broken, h => by
    rw [check, Except.bind_eq_ok] at h
    obtain ⟨_, hitems, hbroken⟩ := h
    rw [pass, passItems_of_check items hitems]
    exact hbroken
  | .obj members broken, h => by
    rw [check, Except.bind_eq_ok] at h
    obtain ⟨_, hmembers, hbroken⟩ := h
    rw [pass, passMembers_of_check members hmembers]
    exact hbroken
  | .null, _ | .bool _, _ | .nat _, _ | .neg _, _ | .real _, _ | .str _, _ | .garbled, _ => rfl
  | .deep _, h | .absent, h | .brokenText _ _, h | .brokenValue _ _, h => by cases h

theorem passItems_of_check : ∀ (vs : List Json), checkItems vs = .ok () → passItems vs = .ok ()
  | [], _ => rfl
  | v :: vs, h => by
    rw [checkItems, Except.bind_eq_ok] at h
    obtain ⟨_, hv, hvs⟩ := h
    rw [passItems, pass_of_check v hv]
    exact passItems_of_check vs hvs

theorem passMembers_of_check : ∀ (ms : List (Key × Json)), checkMembers ms = .ok () →
    passMembers ms = .ok ()
  | [], _ => rfl
  | (k, v) :: ms, h => by
    rw [checkMembers, Except.bind_eq_ok] at h
    obtain ⟨key, hk, h⟩ := h
    rw [Except.bind_eq_ok] at h
    obtain ⟨_, hv, hms⟩ := h
    obtain rfl := Key.read_eq_ok.1 hk
    rw [passMembers, pass_of_check v hv]
    exact passMembers_of_check ms hms

end

end BindingTree.Json

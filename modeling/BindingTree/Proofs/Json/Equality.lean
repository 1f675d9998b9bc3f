import BindingTree.Json.Basic

/-! Equality of JSON trees can be decided, so that what a text reads as can be tested. -/

namespace BindingTree.Json

mutual

def same : Json → Json → Bool
  | .null, .null | .garbled, .garbled | .absent, .absent => true
  | .bool a, .bool b | .real a, .real b => a = b
  | .nat a, .nat b | .neg a, .neg b => a = b
  | .str a, .str b => a = b
  | .arr vs f, .arr ws g => sameItems vs ws && f = g
  | .obj ms f, .obj ns g => sameMembers ms ns && f = g
  | .deep v, .deep w => same v w
  | .brokenText a b, .brokenText c d | .brokenValue a b, .brokenValue c d => a = c && b = d
  | _, _ => false

def sameItems : List Json → List Json → Bool
  | [], [] => true
  | v :: vs, w :: ws => same v w && sameItems vs ws
  | _, _ => false

def sameMembers : List (Key × Json) → List (Key × Json) → Bool
  | [], [] => true
  | (k, v) :: ms, (l, w) :: ns => k = l && same v w && sameMembers ms ns
  | _, _ => false

end

mutual

theorem same_iff : ∀ v w : Json, same v w = true ↔ v = w
  | .arr vs f, w => by cases w <;> simp [same, sameItems_iff vs]
  | .obj ms f, w => by cases w <;> simp [same, sameMembers_iff ms]
  | .deep v, w => by cases w <;> simp [same, same_iff v]
  | .null, w | .bool _, w | .nat _, w | .neg _, w | .real _, w | .str _, w | .garbled, w
  | .absent, w | .brokenText _ _, w | .brokenValue _ _, w => by cases w <;> simp [same]

theorem sameItems_iff : ∀ vs ws : List Json, sameItems vs ws = true ↔ vs = ws
  | [], ws => by cases ws <;> simp [sameItems]
  | v :: vs, ws => by
    cases ws with
    | nil => simp [sameItems]
    | cons w ws => simp [sameItems, same_iff v, sameItems_iff vs]

theorem sameMembers_iff : ∀ ms ns : List (Key × Json), sameMembers ms ns = true ↔ ms = ns
  | [], ns => by cases ns <;> simp [sameMembers]
  | (k, v) :: ms, ns => by
    cases ns with
    | nil => simp [sameMembers]
    | cons n ns =>
      obtain ⟨l, w⟩ := n
      simp [sameMembers, same_iff v, sameMembers_iff ms]

end

instance : DecidableEq Json := fun v w => decidable_of_iff _ (same_iff v w)

end BindingTree.Json

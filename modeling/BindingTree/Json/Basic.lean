import BindingTree.Json.Fault

/-! JSON trees. A tree keeps what a text says up to the place where it breaks, with a leaf for the
break, so that a reader of the tree meets the faults of the text in their order. Members keep
their order and their repetitions; a reader decides what a repetition means.

Reading a value and passing it over differ: a string with an unpaired surrogate, a number out of
range and too deep a bracket can be passed over but not read. -/

namespace BindingTree

/-- The key of a member, or what stands where a key belongs. -/
inductive Json.Key where
  | text (s : String)
  /-- A string with an unpaired surrogate. -/
  | garbled
  /-- The text breaks here, with the fault on reading and on passing over. -/
  | broken (reading passing : Json.Fault)
  /-- Something other than a string, with the fault that a reader of names finds in it. -/
  | foreign (fault : Json.Fault)
  deriving DecidableEq, Repr

inductive Json where
  | null
  | bool (b : Bool)
  /-- A whole number below 2^64. -/
  | nat (n : Nat)
  /-- A negative whole number, as its magnitude. -/
  | neg (n : Nat)
  /-- Any other number; one out of range cannot be read. -/
  | real (inRange : Bool)
  | str (s : String)
  /-- A string with an unpaired surrogate. -/
  | garbled
  /-- A list; `broken` tells what is found in place of its comma or bracket. -/
  | arr (items : List Json) (broken : Option Json.Fault)
  | obj (members : List (Json.Key × Json)) (broken : Option Json.Fault)
  /-- A bracket below the nesting limit. -/
  | deep (v : Json)
  /-- The text ends where a value belongs. -/
  | absent
  /-- A string that breaks off. -/
  | brokenText (reading passing : Json.Fault)
  /-- Anything else that is no value. -/
  | brokenValue (reading passing : Json.Fault)

namespace Json

def Key.read : Key → Except Fault String
  | .text s => .ok s
  | .garbled => .error .malformed
  | .broken reading _ => .error reading
  | .foreign _ => .error .malformed

def Key.pass : Key → Except Fault Unit
  | .text _ | .garbled => .ok ()
  | .broken _ passing => .error passing
  | .foreign _ => .error .malformed

/-- Fails with the fault that breaks a list or object, if there is one. -/
def closed : Option Fault → Except Fault Unit
  | none => .ok ()
  | some fault => .error fault

/-- The fault of a value where one of another type is wanted: a scalar is read before its type is
refused, a bracket is refused at once. -/
def refusal : Json → Fault
  | .garbled | .real false => .malformed
  | .absent => .ended
  | .brokenText reading _ | .brokenValue reading _ => reading
  | _ => .mistyped

/-- An object with the given members. -/
def object (members : List (String × Json)) : Json :=
  .obj (members.map fun m => (.text m.1, m.2)) none

/-- A list with the given items. -/
def list (items : List Json) : Json := .arr items none

mutual

/-- Reads a value whatever its type. -/
def check : Json → Except Fault Unit
  | .null | .bool _ | .nat _ | .neg _ | .real true | .str _ => .ok ()
  | .arr items broken => do checkItems items; closed broken
  | .obj members broken => do checkMembers members; closed broken
  | .deep _ => .error .malformed
  | .garbled => .error .malformed
  | .real false => .error .malformed
  | .absent => .error .ended
  | .brokenText reading _ | .brokenValue reading _ => .error reading

def checkItems : List Json → Except Fault Unit
  | [] => .ok ()
  | v :: vs => do check v; checkItems vs

def checkMembers : List (Key × Json) → Except Fault Unit
  | [] => .ok ()
  | (k, v) :: ms => do let _ ← k.read; check v; checkMembers ms

end

mutual

/-- Passes a value over. -/
def pass : Json → Except Fault Unit
  | .arr items broken => do passItems items; closed broken
  | .obj members broken => do passMembers members; closed broken
  | .deep v => pass v
  | .absent => .error .ended
  | .brokenText _ passing | .brokenValue _ passing => .error passing
  | _ => .ok ()

def passItems : List Json → Except Fault Unit
  | [] => .ok ()
  | v :: vs => do pass v; passItems vs

def passMembers : List (Key × Json) → Except Fault Unit
  | [] => .ok ()
  | (k, v) :: ms => do k.pass; pass v; passMembers ms

end

/-- How many lists and objects stand inside one another. -/
def depth : Json → Nat
  | .arr items _ => depthItems items + 1
  | .obj members _ => depthMembers members + 1
  | .deep v => depth v
  | _ => 0
where
  depthItems : List Json → Nat
    | [] => 0
    | v :: vs => max (depth v) (depthItems vs)
  depthMembers : List (Key × Json) → Nat
    | [] => 0
    | (_, v) :: ms => max (depth v) (depthMembers ms)

mutual

/-- Marks the brackets that stand inside `n` others. -/
def limit (n : Nat) : Json → Json
  | .arr items broken => match n with
    | 0 => .deep (.arr items broken)
    | n + 1 => .arr (limitItems n items) broken
  | .obj members broken => match n with
    | 0 => .deep (.obj members broken)
    | n + 1 => .obj (limitMembers n members) broken
  | v => v

def limitItems (n : Nat) : List Json → List Json
  | [] => []
  | v :: vs => limit n v :: limitItems n vs

def limitMembers (n : Nat) : List (Key × Json) → List (Key × Json)
  | [] => []
  | (k, v) :: ms => (k, limit n v) :: limitMembers n ms

end

/-- How deep a text may nest its lists and objects. -/
def nestingLimit : Nat := 127

end Json

end BindingTree

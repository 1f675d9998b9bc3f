import BindingTree.Json.Basic
import BindingTree.Record.Visibility

/-! Keys of objects and what they may hold. An object of known keys is read member by member in
the order of the text: an owned key may not be repeated, and its value has to have the shape that
goes with the key. The outcome is the list of the slots that were filled. -/

namespace BindingTree

/-- What the value of a key may be. -/
inductive Shape where
  | flag
  | text
  | optionalText
  | number
  | visibility
  /-- One of two words. -/
  | choice (first second : String)
  deriving DecidableEq, Repr

/-- A value that was read, by its shape. -/
inductive Slot where
  | flag (b : Bool)
  | text (s : String)
  | optionalText (s : Option String)
  | number (n : Option UInt32)
  | visibility (v : Visibility)
  deriving DecidableEq, Repr

abbrev Slots := List (String × Slot)

abbrev Shapes := List (String × Shape)

open Json (Fault)

/-- Reads a string. -/
def Json.readString : Json → Except Fault String
  | .str s => .ok s
  | v => .error v.refusal

def Json.readOptionalString : Json → Except Fault (Option String)
  | .null => .ok none
  | v => some <$> v.readString

def Json.readFlag : Json → Except Fault Bool
  | .bool b => .ok b
  | v => .error v.refusal

/-- Reads a whole number of 32 bits. -/
def Json.readNumber32 : Json → Except Fault UInt32
  | .nat n => if n < Nat.pow 2 32 then .ok (UInt32.ofNat n) else .error .mistyped
  | v => .error v.refusal

def Json.readOptionalNumber32 : Json → Except Fault (Option UInt32)
  | .null => .ok none
  | v => some <$> v.readNumber32

/-- The name at the front of an object that stands for a choice. -/
def Json.Key.readName : Json.Key → Except Fault String
  | .foreign fault => .error fault
  | k => k.read

def checkChoice (first second text : String) : Except Fault String :=
  if text = first ∨ text = second then .ok text else .error (.badChoice text first second)

/-- Reads one of two words: as a string, or as the only key of an object that holds null. -/
def Json.readChoice (first second : String) : Json → Except Fault String
  | .str s => checkChoice first second s
  | .obj [] broken => do Json.closed broken; .error .malformed
  | .obj ((k, v) :: ms) broken => do
    let word ← checkChoice first second (← k.readName)
    match v, ms with
    | .null, [] => do Json.closed broken; return word
    | .null, _ => .error .malformed
    | v, _ => .error v.refusal
  | .absent => .error .ended
  | .brokenText reading _ => .error reading
  | _ => .error .malformed

def Shape.read : Shape → Json → Except Fault Slot
  | .flag, v => .flag <$> v.readFlag
  | .text, v => .text <$> v.readString
  | .optionalText, v => .optionalText <$> v.readOptionalString
  | .number, v => .number <$> v.readOptionalNumber32
  | .visibility, v => do return .visibility (← Visibility.ofText (← v.readString))
  | .choice first second, v => .text <$> v.readChoice first second

/-- What a slot is written as; an optional value that is missing is not written. -/
def Slot.toJson? : Slot → Option Json
  | .flag b => some (.bool b)
  | .text s => some (.str s)
  | .optionalText s => s.map .str
  | .number n => n.map fun n => .nat n.toNat
  | .visibility v => some (.str v.text)

namespace Slots

/-- The flag under a key, or `other` if its slot is empty. -/
def flagOr (slots : Slots) (key : String) (other : Bool) : Bool :=
  match slots.lookup key with
  | some (.flag b) => b
  | _ => other

def textOr (slots : Slots) (key other : String) : String :=
  match slots.lookup key with
  | some (.text s) => s
  | _ => other

def flag (slots : Slots) (key : String) : Bool := slots.flagOr key false

def text (slots : Slots) (key : String) : String := slots.textOr key ""

def optionalText (slots : Slots) (key : String) : Option String :=
  match slots.lookup key with
  | some (.optionalText s) => s
  | _ => none

def number (slots : Slots) (key : String) : Option UInt32 :=
  match slots.lookup key with
  | some (.number n) => n
  | _ => none

def visibility (slots : Slots) (key : String) : Visibility :=
  match slots.lookup key with
  | some (.visibility v) => v
  | _ => .unknown

/-- The members that slots are written as. -/
def members (slots : Slots) : List (String × Json) :=
  slots.filterMap fun s => s.2.toJson?.map (s.1, ·)

/-- Fills the slot of an owned key, unless it is filled already. -/
def fill {σ : Type} (seen : List (String × σ)) (key : String) (read : Except Fault σ) :
    Except Fault (List (String × σ)) :=
  if (seen.lookup key).isSome then .error (.repeated key) else do return seen ++ [(key, ← read)]

/-- Fills slots from members in their order; `foreign` deals with the values of other keys. -/
def collect (shapes : Shapes) (foreign : Json → Except Fault Unit) (seen : Slots) :
    List (Json.Key × Json) → Except Fault Slots
  | [] => .ok seen
  | (k, v) :: ms => do
    let key ← k.read
    match shapes.lookup key with
    | some shape => do collect shapes foreign (← fill seen key (shape.read v)) ms
    | none => do foreign v; collect shapes foreign seen ms

/-- Fills slots from the items of a list in the order of the shapes. Missing items leave their
slots empty; there may be no more items than shapes. -/
def ofItems : Shapes → List Json → Option Fault → Except Fault Slots
  | [], _ :: _, _ => .error .malformed
  | _, [], broken => do Json.closed broken; return []
  | (key, shape) :: shapes, v :: vs, broken => do
    let slot ← shape.read v
    return (key, slot) :: (← ofItems shapes vs broken)

/-- Fills slots from an object, whose foreign keys are passed over, or from a list. -/
def ofJson (shapes : Shapes) : Json → Except Fault Slots
  | .obj members broken => do
    let slots ← collect shapes Json.pass [] members
    Json.closed broken
    return slots
  | .arr items broken => ofItems shapes items broken
  | .deep _ => .error .malformed
  | v => .error v.refusal

end Slots

end BindingTree

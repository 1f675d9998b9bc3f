import BindingTree.Failure
import BindingTree.KeyedList
import BindingTree.Settings

/-! The index of a hierarchy: elements under their native and their managed full names. An element
whose name is taken by one of another kind goes under a key made of its kind and the name, or is
refused. -/

namespace BindingTree

structure Entry where
  id : ElementId
  kind : Kind
  deriving DecidableEq, Repr, Inhabited

abbrev Entries := KeyedList String Entry

structure Index where
  policy : ClashPolicy
  native : Entries := {}
  managed : Entries := {}

namespace Index

def size (ix : Index) : Nat := ix.native.size + ix.managed.size

def table (ix : Index) : Table → Entries
  | .native => ix.native
  | .managed => ix.managed

def setTable (ix : Index) (t : Table) (entries : Entries) : Index :=
  match t with
  | .native => { ix with native := entries }
  | .managed => { ix with managed := entries }

/-- The entry that stands in the way of `entry` under a key: one of another kind and of another
element. -/
def inTheWay? (entries : Entries) (key : String) (entry : Entry) : Option Entry :=
  (entries.get? key).filter fun e => e.kind ≠ entry.kind && e.id ≠ entry.id

/-- Whether a key leads to an element. -/
def leadsTo (entries : Entries) (key : String) (id : ElementId) : Bool :=
  (entries.get? key).any (·.id = id)

/-- Enters an element under a key, and tells of a clash that is new. -/
def insert (ix : Index) (t : Table) (key : String) (entry : Entry) :
    Except Failure (Index × Option Clash) :=
  let entries := ix.table t
  if key = "" then .error (.invalidElement (.emptyKey entry.kind entry.id))
  else match inTheWay? entries key entry with
    | none => .ok (ix.setTable t (entries.put key entry), none)
    | some existing =>
      let clash : Clash := ⟨key, t, existing.kind, entry.kind⟩
      match ix.policy with
      | .strict => .error (.duplicate clash)
      | .rekey =>
        let other := entry.kind.keyed key
        if leadsTo entries other entry.id then .ok (ix, none)
        else .ok (ix.setTable t (entries.put other entry), some clash)

/-- Removes a key if it leads to an element. -/
def drop (entries : Entries) (key : String) (id : ElementId) : Entries :=
  if leadsTo entries key id then entries.erase key else entries

/-- Removes an element from under a key, plain and with its kind, and tells whether one of the two
led to it. -/
def remove (ix : Index) (t : Table) (key : String) (entry : Entry) : Index × Bool :=
  let entries := ix.table t
  let keyed := entry.kind.keyed key
  let plain := drop entries key entry.id
  (ix.setTable t (drop plain keyed entry.id),
    leadsTo entries key entry.id || leadsTo plain keyed entry.id)

/-- Looks a name up in one table. An entry of the hinted kind comes before one of another. -/
def lookupIn (entries : Entries) (name : String) (hint : Option Kind) : Option Entry :=
  let plain := entries.get? name
  match hint with
  | none => plain
  | some k => if plain.any (·.kind = k) then plain else (entries.get? (k.keyed name)).or plain

/-- Looks a native name up and, failing that, a managed one. -/
def lookup? (ix : Index) (name : String) (hint : Option Kind) : Option Entry :=
  (lookupIn ix.native name hint).or (lookupIn ix.managed name hint)

/-- Looks a name up on behalf of an element, which only adds to the words of a failure. -/
def lookup (ix : Index) (name : String) (hint : Option Kind) (onBehalfOf : Option Element) :
    Except Failure ElementId :=
  match ix.lookup? name hint with
  | some entry => .ok entry.id
  | none => .error (.typeNotFound name (onBehalfOf.map Element.describe))

end Index

end BindingTree

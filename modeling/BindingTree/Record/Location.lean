import BindingTree.Record.Slot

/-! Where a record was read from, and whether it is deprecated. -/

namespace BindingTree

structure Location where
  path : Option String := none
  line : Option UInt32 := none
  column : Option UInt32 := none
  deriving DecidableEq, Repr, Inhabited

namespace Location

/-- A location is known by a path that is not empty and a line. -/
def isKnown (l : Location) : Bool := l.path.any (· ≠ "") && l.line.isSome

/-- The path with line and column, with the line alone, or nothing for an unknown location. -/
def text (l : Location) : String :=
  match l.path, l.line with
  | some path, some line =>
    if path = "" then ""
    else match l.column with
      | some column =>
        if column = 0 then path ++ ":" ++ toString line.toNat
        else path ++ " [" ++ toString line.toNat ++ ":" ++ toString column.toNat ++ "]"
      | none => path ++ ":" ++ toString line.toNat
  | _, _ => ""

def shapes : Shapes := [("document_path", .optionalText), ("line", .number), ("column", .number)]

def ofSlots (s : Slots) : Location where
  path := s.optionalText "document_path"
  line := s.number "line"
  column := s.number "column"

def slots (l : Location) : Slots :=
  [("document_path", .optionalText l.path), ("line", .number l.line), ("column", .number l.column)]

def ofJson (v : Json) : Except Json.Fault Location := ofSlots <$> Slots.ofJson shapes v

def toJson (l : Location) : Json := Json.object l.slots.members

end Location

structure Deprecation where
  deprecated : Bool := false
  message : Option String := none
  since : Option String := none
  deriving DecidableEq, Repr, Inhabited

namespace Deprecation

def shapes : Shapes :=
  [("deprecated", .flag), ("message", .optionalText), ("since", .optionalText)]

def ofSlots (s : Slots) : Deprecation where
  deprecated := s.flag "deprecated"
  message := s.optionalText "message"
  since := s.optionalText "since"

def slots (d : Deprecation) : Slots :=
  [("deprecated", .flag d.deprecated), ("message", .optionalText d.message),
    ("since", .optionalText d.since)]

def ofJson (v : Json) : Except Json.Fault Deprecation := ofSlots <$> Slots.ofJson shapes v

def toJson (d : Deprecation) : Json := Json.object d.slots.members

end Deprecation

end BindingTree

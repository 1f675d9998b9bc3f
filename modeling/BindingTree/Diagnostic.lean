import BindingTree.Failure

/-! Diagnostics: conditions that a build reports and survives. A notice says what was met; a
diagnostic is its kind and its words. -/

namespace BindingTree

inductive DiagnosticKind where
  | unsupportedKind
  | duplicateEntry
  | alreadyMoved
  deriving DecidableEq, Repr

def DiagnosticKind.all : List DiagnosticKind := [.unsupportedKind, .duplicateEntry, .alreadyMoved]

def DiagnosticKind.text : DiagnosticKind → String
  | .unsupportedKind => "unsupported-element-kind"
  | .duplicateEntry => "duplicate-index-entry"
  | .alreadyMoved => "already-reparented"

structure Diagnostic where
  kind : DiagnosticKind
  message : String
  deriving DecidableEq, Repr

def Diagnostic.text (d : Diagnostic) : String := "[" ++ d.kind.text ++ "] " ++ d.message

/-- How many diagnostics of a kind there are. -/
def Diagnostic.count (kind : DiagnosticKind) (ds : List Diagnostic) : Nat :=
  (ds.filter (·.kind = kind)).length

/-- Where a record stands: at the top, or below an element with a kind and a full name. -/
inductive Place where
  | top
  | under (kind : Kind) (fullName : String)
  deriving DecidableEq, Repr

def Place.text : Place → String
  | .top => "top level"
  | .under kind fullName => kind.label ++ " " ++ fullName

inductive Notice where
  | unsupported (name : String) (tag : Tag) (place : Place)
  | clash (c : Clash)
  | alreadyMoved (element previous : String)
  deriving DecidableEq, Repr

def Notice.kind : Notice → DiagnosticKind
  | .unsupported .. => .unsupportedKind
  | .clash _ => .duplicateEntry
  | .alreadyMoved .. => .alreadyMoved

def Notice.message : Notice → String
  | .unsupported name tag place =>
    "Unsupported element '" ++ name ++ "' of kind '" ++ tag.text ++ "' at " ++ place.text
  | .clash c =>
    "Duplicate type name '" ++ c.name ++ "' in " ++ c.table.text ++ " index. Existing entry is a "
      ++ c.existing.word ++ ", new entry is a " ++ c.added.word
  | .alreadyMoved element previous =>
    "Element " ++ element ++ " was already re-parented under " ++ previous

def Notice.diagnostic (n : Notice) : Diagnostic := ⟨n.kind, n.message⟩

end BindingTree

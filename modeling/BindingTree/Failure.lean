import BindingTree.Element.Basic
import BindingTree.Naming.Identifier

/-! What makes an operation fail. -/

namespace BindingTree

open Naming (InvalidIdentifier)

/-- The two tables of the index. -/
inductive Table where
  | native
  | managed
  deriving DecidableEq, Repr

def Table.text : Table → String
  | .native => "native"
  | .managed => "managed"

/-- A name that two elements of different kinds want in one table. -/
structure Clash where
  name : String
  table : Table
  existing : Kind
  added : Kind
  deriving DecidableEq, Repr

/-- Why an element cannot take its place or play its part. -/
inductive ElementFault where
  | cycle (child parent : String)
  | emptyKey (kind : Kind) (id : ElementId)
  | leadingDot (enum : String)
  | noKind (record : String)
  | rootedInterface (interface : String)
  deriving DecidableEq, Repr

def idText (id : ElementId) : String := "#" ++ toString id

def ElementFault.message : ElementFault → String
  | .cycle child parent => "adding " ++ child ++ " under " ++ parent ++ " would create a cycle"
  | .emptyKey kind id =>
    kind.label ++ " " ++ idText id ++ " has an empty name and cannot be indexed"
  | .leadingDot enum => "enum name '" ++ enum ++ "' must not start with a dot"
  | .noKind record => "'" ++ record ++ "' has no element kind"
  | .rootedInterface interface =>
    "invoker requires interface " ++ interface ++ " to be nested in an element"

inductive Failure where
  | invalidIdentifier (e : InvalidIdentifier)
  /-- A type is not in the index; the second text describes the element that asked for it. -/
  | typeNotFound (name : String) (onBehalfOf : Option String)
  | duplicate (clash : Clash)
  | emptyInput
  | invalidElement (fault : ElementFault)
  deriving DecidableEq, Repr

namespace Failure

/-- Every failure but that of an empty input ends a build that has begun. -/
def isFatal : Failure → Bool
  | .emptyInput => false
  | _ => true

def message : Failure → String
  | .invalidIdentifier e => "Invalid identifier '" ++ e.name ++ "': " ++ e.fault.message
  | .typeNotFound name onBehalfOf =>
    "Type '" ++ name ++ "' not found in index."
      ++ (match onBehalfOf with
        | some text => " Called on behalf of: " ++ text
        | none => "")
  | .duplicate c =>
    "Duplicate type name '" ++ c.name ++ "' in " ++ c.table.text ++ " index: existing entry is a "
      ++ c.existing.word ++ ", new entry is a " ++ c.added.word
  | .emptyInput => "Raw element collection must not be empty"
  | .invalidElement fault => "Invalid element: " ++ fault.message

end Failure

end BindingTree

import BindingTree.Naming.Dotted
import BindingTree.Text.Identifier

/-! Managed identifiers: dotted names all of whose segments are identifiers. -/

namespace BindingTree.Naming

open Text

/-- Why a name is refused. -/
inductive IdentifierFault where
  | emptyName
  | emptySegment
  | emptyBetweenDots
  | emptyIdentifier
  | emptyIdentifierSegment
  | badStart (c : Char)
  | badCharacter (c : Char)
  | noWords
  deriving DecidableEq, Repr

def IdentifierFault.message : IdentifierFault → String
  | .emptyName => "name must not be empty"
  | .emptySegment => "segment must not be empty"
  | .emptyBetweenDots => "empty segment after splitting on '.'"
  | .emptyIdentifier => "managed identifier must not be empty"
  | .emptyIdentifierSegment => "empty segment"
  | .badStart c => "'" ++ String.singleton c ++ "' cannot start an identifier"
  | .badCharacter c => "'" ++ String.singleton c ++ "' is not allowed in an identifier"
  | .noWords => "field name has no usable words"

/-- A name together with the reason it is refused for. -/
structure InvalidIdentifier where
  name : String
  fault : IdentifierFault
  deriving DecidableEq, Repr

variable [Alphabet]

/-- The first fault of a single segment, from the left. -/
def segmentFault? : List Char → Option IdentifierFault
  | [] => some .emptyIdentifierSegment
  | c :: cs =>
    if isIdentifierStart c then (cs.find? fun d => !isIdentifierContinue d).map .badCharacter
    else some (.badStart c)

/-- The first fault of a dotted name, from the left. -/
def identifierFault? (name : String) : Option IdentifierFault :=
  if name = "" then some .emptyIdentifier
  else (pieces (· = '.') name.toList).findSome? segmentFault?

/-- Passes a managed identifier through and refuses any other name. -/
def checkIdentifier (name : String) : Except InvalidIdentifier String :=
  match identifierFault? name with
  | some fault => .error ⟨name, fault⟩
  | none => .ok name

end BindingTree.Naming

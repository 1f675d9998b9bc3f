import BindingTree.Json.Fault
import BindingTree.Text.Blank

/-! Visibilities and their written forms: one word, or two words in either order. -/

namespace BindingTree

inductive Visibility where
  | unknown
  | pub
  | prot
  | priv
  | internal
  | protInternal
  | privProt
  deriving DecidableEq, Repr, Inhabited

namespace Visibility

def text : Visibility → String
  | .unknown => ""
  | .pub => "public"
  | .prot => "protected"
  | .priv => "private"
  | .internal => "internal"
  | .protInternal => "protected internal"
  | .privProt => "private protected"

/-- The visibility that a single lower-case word names; the empty text names the unknown one. -/
def ofWord? : String → Option Visibility
  | "" => some .unknown
  | "public" => some .pub
  | "protected" => some .prot
  | "private" => some .priv
  | "internal" => some .internal
  | _ => none

/-- The visibility that two lower-case words name. -/
def ofPair? : List String → Option Visibility
  | ["protected", "internal"] | ["internal", "protected"] => some .protInternal
  | ["private", "protected"] | ["protected", "private"] => some .privProt
  | _ => none

/-- Reads a written form, first as a whole and then by its words; case and the amount of blank
space do not matter. -/
def ofText? (text : String) : Option Visibility :=
  let written := (Text.trim text.toList).map Char.toLower
  ofWord? (String.ofList written) <|> ofPair? ((Text.words written).map String.ofList)

/-- Reads a written form and refuses any other text as it stands. -/
def ofText (text : String) : Except Json.Fault Visibility :=
  match ofText? text with
  | some v => .ok v
  | none => .error (.badVisibility text)

theorem ofText_text (v : Visibility) : ofText v.text = .ok v := by cases v <;> rfl

end Visibility

end BindingTree

import BindingTree.Json.Reader
import BindingTree.Record.Basic

/-! Records as JSON. The keys common to all records are read as they are met, children included;
all other keys are only looked through, and read once the record's kind is known. -/

namespace BindingTree

open Json (Fault)

/-- What is kept under the keys common to all records. -/
inductive CommonSlot where
  | text (s : String)
  | optionalText (s : Option String)
  | location (l : Location)
  | deprecation (d : Deprecation)
  | attributes (a : Attributes)
  | children (rs : List Record)

namespace CommonSlot

abbrev Filled := List (String × CommonSlot)

/-- The readers of the common keys, `children` apart. -/
def reader? : String → Option (Json → Except Fault CommonSlot)
  | "name" => some fun v => text <$> v.readString
  | "managed_name" | "name_generic_aware" | "jni_signature" | "api_since" | "api_until"
  | "merge_source_file" => some fun v => optionalText <$> v.readOptionalString
  | "location" => some fun v => location <$> Location.ofJson v
  | "deprecation" => some fun v => deprecation <$> Deprecation.ofJson v
  | "other_attributes" => some fun v => attributes <$> Attributes.ofJson v
  | _ => none

namespace Filled

def optionalText (f : Filled) (key : String) : Option String :=
  match f.lookup key with
  | some (.optionalText s) => s
  | _ => none

/-- The head of a record; a name has to be there. -/
def head (f : Filled) (content : Content) (name : String) : Record.Head where
  content
  name
  managedName := f.optionalText "managed_name"
  genericName := f.optionalText "name_generic_aware"
  jniSignature := f.optionalText "jni_signature"
  location := match f.lookup "location" with
    | some (.location l) => l
    | _ => {}
  deprecation := match f.lookup "deprecation" with
    | some (.deprecation d) => d
    | _ => {}
  apiSince := f.optionalText "api_since"
  apiUntil := f.optionalText "api_until"
  mergeSource := f.optionalText "merge_source_file"
  attributes := match f.lookup "other_attributes" with
    | some (.attributes a) => a
    | _ => .empty

def children (f : Filled) : List Record :=
  match f.lookup "children" with
  | some (.children rs) => rs
  | _ => []

end Filled

end CommonSlot

namespace Record

/-- The tag among the members of a record. It may not be repeated. -/
def readTag (seen : Option Tag) : List (Json.Key × Json) → Except Fault Tag
  | [] => match seen with
    | some tag => .ok tag
    | none => .error (.missing "kind")
  | (k, v) :: ms => do
    if (← k.read) = "kind" then
      if seen.isSome then .error (.repeated "kind") else readTag (some (← Tag.ofJson v)) ms
    else readTag seen ms

/-- Puts a record together once its members have been looked through. -/
def assemble (common : CommonSlot.Filled) (members : List (Json.Key × Json)) :
    Except Fault Record :=
  match common.lookup "name" with
  | some (.text name) => do
    let tag ← readTag none members
    let content ← Content.ofMembers tag members
    return ⟨common.head content name, common.children⟩
  | _ => .error (.missing "name")

mutual

def ofJson : Json → Except Fault Record
  | .obj members broken => do
    let common ← readCommon [] members
    Json.closed broken
    assemble common members
  | .deep (.obj _ _) => .error .malformed
  | v => .error v.refusal

/-- Looks through the members of a record and fills the common keys. -/
def readCommon (seen : CommonSlot.Filled) :
    List (Json.Key × Json) → Except Fault CommonSlot.Filled
  | [] => .ok seen
  | (k, v) :: ms => do
    let key ← k.read
    if key = "children" then
      readCommon (← Slots.fill seen key (.children <$> listOfJson v)) ms
    else match CommonSlot.reader? key with
      | some reader => readCommon (← Slots.fill seen key (reader v)) ms
      | none => do v.check; readCommon seen ms

/-- Reads a list of records. -/
def listOfJson : Json → Except Fault (List Record)
  | .arr items broken => do
    let rs ← ofItems items
    Json.closed broken
    return rs
  | .deep (.arr _ _) => .error .malformed
  | v => .error v.refusal

def ofItems : List Json → Except Fault (List Record)
  | [] => .ok []
  | v :: vs => do return (← ofJson v) :: (← ofItems vs)

end

/-- The members of a record that are not its children. -/
def Head.members (h : Head) : List (String × Json) :=
  let optional (key : String) (s : Option String) := (key, Slot.optionalText s)
  [("kind", .str h.content.tag.text)] ++ h.content.slots.members
    ++ Slots.members [("name", .text h.name), optional "managed_name" h.managedName,
      optional "name_generic_aware" h.genericName, optional "jni_signature" h.jniSignature]
    ++ [("location", h.location.toJson), ("deprecation", h.deprecation.toJson)]
    ++ Slots.members [optional "api_since" h.apiSince, optional "api_until" h.apiUntil,
      optional "merge_source_file" h.mergeSource]
    ++ if h.attributes.entries = [] then [] else [("other_attributes", h.attributes.toJson)]

mutual

def toJson : Record → Json
  | ⟨head, []⟩ => Json.object head.members
  | ⟨head, r :: rs⟩ => Json.object (head.members ++ [("children", Json.list (toJson r :: items rs))])

def items : List Record → List Json
  | [] => []
  | r :: rs => toJson r :: items rs

end

/-- A forest as a JSON tree. -/
def forestToJson (rs : List Record) : Json := Json.list (items rs)

/-- Reads a forest from a text. -/
def readForest (text : String) : Except Fault (List Record) := Json.decode listOfJson text

end Record

end BindingTree

import BindingTree.Record.Attributes
import BindingTree.Record.Content
import BindingTree.Record.Location

/-! Records: the elements of an API description as they are read, each with its children. -/

namespace BindingTree

/-- A record without its children. -/
structure Record.Head where
  content : Content
  name : String
  managedName : Option String := none
  genericName : Option String := none
  jniSignature : Option String := none
  location : Location := {}
  deprecation : Deprecation := {}
  apiSince : Option String := none
  apiUntil : Option String := none
  mergeSource : Option String := none
  /-- Attributes that were not interpreted. -/
  attributes : Attributes := .empty
  deriving DecidableEq, Repr, Inhabited

structure Record where
  head : Record.Head
  children : List Record

namespace Record

def name (r : Record) : String := r.head.name

def content (r : Record) : Content := r.head.content

def tag (r : Record) : Tag := r.content.tag

end Record

end BindingTree

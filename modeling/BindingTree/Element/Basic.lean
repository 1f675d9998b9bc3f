import BindingTree.Element.Marker
import BindingTree.Element.Kind
import BindingTree.Record.Basic

/-! Elements of a hierarchy, without their places in it. The payload of an element fixes its
kind. -/

namespace BindingTree

/-- The position of an element in the order in which elements were made. -/
abbrev ElementId := Nat

/-- What is known of a type besides its names. -/
structure TypeFacts where
  info : TypeInfo := {}
  /-- Names of base types that are still to be found, in order. -/
  baseNames : List String := []
  /-- The base types, once they are found. -/
  bases : Option (List ElementId) := none
  /-- Whether base types are left alone. -/
  basesFixed : Bool := false
  invoker : Option ElementId := none
  needsNoInvoker : Bool := false
  /-- The interface that an invoker calls. -/
  invoked : Option ElementId := none
  deriving DecidableEq, Repr, Inhabited

/-- The kinds of types. -/
inductive TypeKind where
  | cls
  | invoker
  | iface
  | enum
  deriving DecidableEq, Repr, Inhabited

def TypeKind.kind : TypeKind → Kind
  | .cls => .cls
  | .invoker => .invoker
  | .iface => .iface
  | .enum => .enum

/-- What an element of each kind holds. -/
inductive Payload where
  | ns (info : NamespaceInfo)
  | type (kind : TypeKind) (facts : TypeFacts)
  | field (info : FieldInfo)
  | method (info : MethodInfo)
  | ctor (info : MethodInfo)
  | implements (info : ImplementsInfo)
  | typeParam (info : TypeParameterInfo)
  | constraint (info : ConstraintInfo)
  | param (info : ParameterInfo)
  | exception (info : ExceptionInfo)
  deriving DecidableEq, Repr

instance : Inhabited Payload := ⟨.ns {}⟩

def Payload.kind : Payload → Kind
  | .ns _ => .ns
  | .type k _ => k.kind
  | .field _ => .field
  | .method _ => .method
  | .ctor _ => .ctor
  | .implements _ => .implements
  | .typeParam _ => .typeParam
  | .constraint _ => .constraint
  | .param _ => .param
  | .exception _ => .exception

structure Element where
  payload : Payload
  name : String
  fullName : String
  managedName : Option String := none
  fullManagedName : Option String := none
  /-- A managed name given by the record, which stands as it is. -/
  givenName : Option String := none
  genericName : Option String := none
  jniSignature : Option String := none
  location : Location := {}
  deprecation : Deprecation := {}
  apiSince : Option String := none
  apiUntil : Option String := none
  comments : List String := []
  markers : List Marker := []
  attributes : Attributes := .empty
  /-- No code is generated for the element. -/
  ignored : Bool := false
  /-- The element stands for a record. -/
  isBound : Bool := false
  useGlobal : Bool := false
  deriving DecidableEq, Repr, Inhabited

namespace Element

/-- A fresh element whose full name is its name. -/
def fresh (payload : Payload) (name : String) : Element where
  payload
  name
  fullName := name

def kind (e : Element) : Kind := e.payload.kind

def isType (e : Element) : Bool := e.kind.isType

def facts? (e : Element) : Option TypeFacts :=
  match e.payload with
  | .type _ facts => some facts
  | _ => none

/-- Changes the facts of a type and leaves any other element alone. -/
def withFacts (f : TypeFacts → TypeFacts) (e : Element) : Element :=
  match e.payload with
  | .type k facts => { e with payload := .type k (f facts) }
  | _ => e

/-- The base types; none before they are found. -/
def bases (e : Element) : List ElementId := (e.facts?.bind TypeFacts.bases).getD []

def managedText (e : Element) : String := e.managedName.getD ""

def fullManagedText (e : Element) : String := e.fullManagedName.getD ""

/-- Adds a marker unless an equal one is there. -/
def mark (a : Marker) (e : Element) : Element :=
  if a ∈ e.markers then e else { e with markers := e.markers ++ [a] }

def comment (text : String) (e : Element) : Element :=
  { e with comments := e.comments ++ [text] }

/-- The full name, with the location if that is known. -/
def describe (e : Element) : String :=
  if e.location.isKnown then e.fullName ++ " at " ++ e.location.text else e.fullName

/-- The label and the full name. -/
def title (e : Element) : String := e.kind.label ++ " " ++ e.fullName

/-- The line of the element in a dump. -/
def dumpLine (e : Element) : String :=
  e.kind.label ++ ": [native: " ++ e.name ++ " (" ++ e.fullName ++ ")] [managed: "
    ++ e.managedText ++ " (" ++ e.fullManagedText ++ ")]"

end Element

end BindingTree

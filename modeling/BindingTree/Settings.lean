import BindingTree.Json.Reader
import BindingTree.Record.Slot

/-! Settings of a build. Every setting has a default, and a settings text may leave out any. -/

namespace BindingTree

/-- What becomes of an element whose name is taken by an element of another kind. -/
inductive ClashPolicy where
  /-- It is kept under its name and kind, and the clash is reported. -/
  | rekey
  /-- The build fails. -/
  | strict
  deriving DecidableEq, Repr, Inhabited

def ClashPolicy.text : ClashPolicy → String
  | .rekey => "prefix"
  | .strict => "strict"

structure Settings where
  /-- The managed name of the namespace for types that support generated code. -/
  runtimeNamespace : String := "Android.Runtime"
  /-- The base of interfaces that name none. -/
  baseInterface : String := "Android.Runtime.IJavaObject"
  /-- The native name of the base of classes that name none. -/
  rootType : String := "java.lang.Object"
  /-- Whether the root type is made when the description lacks it. -/
  makeRootType : Bool := true
  /-- Whether name segments of two characters are raised whole. -/
  raisePairs : Bool := true
  keepDots : Bool := true
  policy : ClashPolicy := .rekey
  deriving DecidableEq, Repr, Inhabited

namespace Settings

def shapes : Shapes :=
  [("runtime_namespace", .text), ("base_interface", .text), ("root_object_type", .text),
    ("synthesize_root_object", .flag), ("upper_case_two_letter_segments", .flag),
    ("preserve_dots", .flag), ("duplicate_policy", .choice "prefix" "strict")]

def ofSlots (s : Slots) : Settings :=
  let d : Settings := {}
  { runtimeNamespace := s.textOr "runtime_namespace" d.runtimeNamespace
    baseInterface := s.textOr "base_interface" d.baseInterface
    rootType := s.textOr "root_object_type" d.rootType
    makeRootType := s.flagOr "synthesize_root_object" d.makeRootType
    raisePairs := s.flagOr "upper_case_two_letter_segments" d.raisePairs
    keepDots := s.flagOr "preserve_dots" d.keepDots
    policy := if s.text "duplicate_policy" = "strict" then .strict else .rekey }

/-- Reads settings from a text. -/
def read (text : String) : Except Json.Fault Settings :=
  Json.decode (fun v => ofSlots <$> Slots.ofJson shapes v) text

/-- The same settings under the strict policy. -/
def strict (s : Settings) : Settings := { s with policy := .strict }

end Settings

end BindingTree

import BindingTree.Record.Slot

/-! What a record of each kind holds beside the data common to all records: its tag, the keys that
the kind owns, and the way from slots to content and back. -/

namespace BindingTree

structure NamespaceInfo where
  jniName : Option String := none
  deriving DecidableEq, Repr, Inhabited

/-- What classes, interfaces and enums share. -/
structure TypeInfo where
  isAbstract : Bool := false
  isStatic : Bool := false
  isFinal : Bool := false
  visibility : Visibility := .unknown
  deriving DecidableEq, Repr, Inhabited

structure ClassInfo where
  type : TypeInfo := {}
  base : Option String := none
  genericBase : Option String := none
  jniBase : Option String := none
  obfuscated : Bool := false
  deriving DecidableEq, Repr, Inhabited

structure FieldInfo where
  type : String := ""
  genericType : Option String := none
  value : Option String := none
  transient : Bool := false
  isVolatile : Bool := false
  isStatic : Bool := false
  isFinal : Bool := false
  visibility : Visibility := .unknown
  deriving DecidableEq, Repr, Inhabited

/-- What methods and constructors hold. -/
structure MethodInfo where
  isAbstract : Bool := false
  isStatic : Bool := false
  isFinal : Bool := false
  visibility : Visibility := .unknown
  result : Option String := none
  jniResult : Option String := none
  managedResult : Option String := none
  native : Bool := false
  synchronized : Bool := false
  bridge : Bool := false
  synthetic : Bool := false
  propertyName : Option String := none
  eventName : Option String := none
  deriving DecidableEq, Repr, Inhabited

structure ImplementsInfo where
  jniType : Option String := none
  deriving DecidableEq, Repr, Inhabited

structure TypeParameterInfo where
  classBound : Option String := none
  jniClassBound : Option String := none
  interfaceBounds : Option String := none
  jniInterfaceBounds : Option String := none
  deriving DecidableEq, Repr, Inhabited

structure ConstraintInfo where
  type : String := ""
  deriving DecidableEq, Repr, Inhabited

structure ParameterInfo where
  type : String := ""
  jniType : Option String := none
  deriving DecidableEq, Repr, Inhabited

structure ExceptionInfo where
  type : String := ""
  deriving DecidableEq, Repr, Inhabited

/-- The kinds of records, in the order in which a number may stand for them. -/
inductive Tag where
  | ns
  | cls
  | iface
  | enum
  | field
  | ctor
  | method
  | implements
  | typeParam
  | constraint
  | param
  | exception
  /-- Any tag that is not known. -/
  | unsupported
  deriving DecidableEq, Repr, Inhabited

/-- A record's kind with what it holds. -/
inductive Content where
  | ns (info : NamespaceInfo)
  | cls (info : ClassInfo)
  | iface (info : TypeInfo)
  | enum (info : TypeInfo)
  | field (info : FieldInfo)
  | ctor (info : MethodInfo)
  | method (info : MethodInfo)
  | implements (info : ImplementsInfo)
  | typeParam (info : TypeParameterInfo)
  | constraint (info : ConstraintInfo)
  | param (info : ParameterInfo)
  | exception (info : ExceptionInfo)
  | unsupported
  deriving DecidableEq, Repr, Inhabited

namespace Tag

/-- The known tags by their numbers. -/
def known : List Tag :=
  [.ns, .cls, .iface, .enum, .field, .ctor, .method, .implements, .typeParam, .constraint, .param,
    .exception]

def text : Tag → String
  | .ns => "namespace"
  | .cls => "class"
  | .iface => "interface"
  | .enum => "enum"
  | .field => "field"
  | .ctor => "constructor"
  | .method => "method"
  | .implements => "implements"
  | .typeParam => "type_parameter"
  | .constraint => "type_parameter_generic_constraint"
  | .param => "method_parameter"
  | .exception => "exception"
  | .unsupported => "unsupported"

def ofText (s : String) : Tag := (known.find? fun t => t.text = s).getD .unsupported

/-- Reads a tag from its text or its number. -/
def ofJson : Json → Except Json.Fault Tag
  | .str s => .ok (ofText s)
  | .nat n => .ok (known[n]?.getD .unsupported)
  | v => .error v.refusal

theorem ofText_text (t : Tag) : ofText t.text = t := by cases t <;> decide

/-- The keys of a type's own description. -/
def typeShapes : Shapes :=
  [("abstract", .flag), ("static", .flag), ("final", .flag), ("visibility", .visibility)]

/-- The keys that a kind owns, in the groups in which they are read. -/
def shapes : Tag → List Shapes
  | .ns => [[("jni_name", .optionalText)]]
  | .cls =>
    [[("extends", .optionalText), ("extends_generic_aware", .optionalText),
        ("jni_extends", .optionalText), ("obfuscated", .flag)],
      typeShapes]
  | .iface | .enum => [typeShapes]
  | .field =>
    [[("type", .text), ("type_generic_aware", .optionalText), ("value", .optionalText),
      ("transient", .flag), ("volatile", .flag), ("static", .flag), ("final", .flag),
      ("visibility", .visibility)]]
  | .ctor | .method =>
    [typeShapes ++
      [("return", .optionalText), ("jni_return", .optionalText), ("managed_return", .optionalText),
        ("native", .flag), ("synchronized", .flag), ("bridge", .flag), ("synthetic", .flag),
        ("property_name", .optionalText), ("event_name", .optionalText)]]
  | .implements => [[("jni_type", .optionalText)]]
  | .typeParam =>
    [[("class_bound", .optionalText), ("jni_class_bound", .optionalText),
      ("interface_bounds", .optionalText), ("jni_interface_bounds", .optionalText)]]
  | .constraint | .exception => [[("type", .text)]]
  | .param => [[("type", .text), ("jni_type", .optionalText)]]
  | .unsupported => []

end Tag

namespace TypeInfo

def ofSlots (s : Slots) : TypeInfo where
  isAbstract := s.flag "abstract"
  isStatic := s.flag "static"
  isFinal := s.flag "final"
  visibility := s.visibility "visibility"

def slots (i : TypeInfo) : Slots :=
  [("abstract", .flag i.isAbstract), ("static", .flag i.isStatic), ("final", .flag i.isFinal),
    ("visibility", .visibility i.visibility)]

end TypeInfo

namespace ClassInfo

def ofSlots (s : Slots) : ClassInfo where
  type := .ofSlots s
  base := s.optionalText "extends"
  genericBase := s.optionalText "extends_generic_aware"
  jniBase := s.optionalText "jni_extends"
  obfuscated := s.flag "obfuscated"

def slots (i : ClassInfo) : Slots :=
  i.type.slots ++
    [("extends", .optionalText i.base), ("extends_generic_aware", .optionalText i.genericBase),
      ("jni_extends", .optionalText i.jniBase), ("obfuscated", .flag i.obfuscated)]

end ClassInfo

namespace FieldInfo

def ofSlots (s : Slots) : FieldInfo where
  type := s.text "type"
  genericType := s.optionalText "type_generic_aware"
  value := s.optionalText "value"
  transient := s.flag "transient"
  isVolatile := s.flag "volatile"
  isStatic := s.flag "static"
  isFinal := s.flag "final"
  visibility := s.visibility "visibility"

def slots (i : FieldInfo) : Slots :=
  [("type", .text i.type), ("type_generic_aware", .optionalText i.genericType),
    ("value", .optionalText i.value), ("transient", .flag i.transient),
    ("volatile", .flag i.isVolatile), ("static", .flag i.isStatic), ("final", .flag i.isFinal),
    ("visibility", .visibility i.visibility)]

end FieldInfo

namespace MethodInfo

def ofSlots (s : Slots) : MethodInfo where
  isAbstract := s.flag "abstract"
  isStatic := s.flag "static"
  isFinal := s.flag "final"
  visibility := s.visibility "visibility"
  result := s.optionalText "return"
  jniResult := s.optionalText "jni_return"
  managedResult := s.optionalText "managed_return"
  native := s.flag "native"
  synchronized := s.flag "synchronized"
  bridge := s.flag "bridge"
  synthetic := s.flag "synthetic"
  propertyName := s.optionalText "property_name"
  eventName := s.optionalText "event_name"

def slots (i : MethodInfo) : Slots :=
  [("abstract", .flag i.isAbstract), ("static", .flag i.isStatic), ("final", .flag i.isFinal),
    ("visibility", .visibility i.visibility), ("return", .optionalText i.result),
    ("jni_return", .optionalText i.jniResult), ("managed_return", .optionalText i.managedResult),
    ("native", .flag i.native), ("synchronized", .flag i.synchronized), ("bridge", .flag i.bridge),
    ("synthetic", .flag i.synthetic), ("property_name", .optionalText i.propertyName),
    ("event_name", .optionalText i.eventName)]

end MethodInfo

namespace TypeParameterInfo

def ofSlots (s : Slots) : TypeParameterInfo where
  classBound := s.optionalText "class_bound"
  jniClassBound := s.optionalText "jni_class_bound"
  interfaceBounds := s.optionalText "interface_bounds"
  jniInterfaceBounds := s.optionalText "jni_interface_bounds"

def slots (i : TypeParameterInfo) : Slots :=
  [("class_bound", .optionalText i.classBound), ("jni_class_bound", .optionalText i.jniClassBound),
    ("interface_bounds", .optionalText i.interfaceBounds),
    ("jni_interface_bounds", .optionalText i.jniInterfaceBounds)]

end TypeParameterInfo

namespace Content

def tag : Content → Tag
  | .ns _ => .ns
  | .cls _ => .cls
  | .iface _ => .iface
  | .enum _ => .enum
  | .field _ => .field
  | .ctor _ => .ctor
  | .method _ => .method
  | .implements _ => .implements
  | .typeParam _ => .typeParam
  | .constraint _ => .constraint
  | .param _ => .param
  | .exception _ => .exception
  | .unsupported => .unsupported

/-- The content that slots make up for a kind. -/
def ofSlots (s : Slots) : Tag → Content
  | .ns => .ns ⟨s.optionalText "jni_name"⟩
  | .cls => .cls (.ofSlots s)
  | .iface => .iface (.ofSlots s)
  | .enum => .enum (.ofSlots s)
  | .field => .field (.ofSlots s)
  | .ctor => .ctor (.ofSlots s)
  | .method => .method (.ofSlots s)
  | .implements => .implements ⟨s.optionalText "jni_type"⟩
  | .typeParam => .typeParam (.ofSlots s)
  | .constraint => .constraint ⟨s.text "type"⟩
  | .param => .param ⟨s.text "type", s.optionalText "jni_type"⟩
  | .exception => .exception ⟨s.text "type"⟩
  | .unsupported => .unsupported

/-- The slots that write a content out. -/
def slots : Content → Slots
  | .ns i => [("jni_name", .optionalText i.jniName)]
  | .cls i => i.slots
  | .iface i | .enum i => i.slots
  | .field i => i.slots
  | .ctor i | .method i => i.slots
  | .implements i => [("jni_type", .optionalText i.jniType)]
  | .typeParam i => i.slots
  | .constraint i => [("type", .text i.type)]
  | .param i => [("type", .text i.type), ("jni_type", .optionalText i.jniType)]
  | .exception i => [("type", .text i.type)]
  | .unsupported => []

/-- What classes, interfaces and enums share. -/
def typeInfo? : Content → Option TypeInfo
  | .cls i => some i.type
  | .iface i | .enum i => some i
  | _ => none

/-- Reads the keys that a kind owns from the members of a record; other keys do not matter. -/
def ofMembers (tag : Tag) (members : List (Json.Key × Json)) : Except Json.Fault Content := do
  let groups ← tag.shapes.mapM fun shapes => Slots.collect shapes (fun _ => .ok ()) [] members
  return ofSlots groups.flatten tag

end Content

end BindingTree

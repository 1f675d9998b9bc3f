/-! The kinds of elements of a hierarchy. -/

namespace BindingTree

inductive Kind where
  | ns
  | cls
  | invoker
  | iface
  | enum
  | field
  | method
  | ctor
  | implements
  | typeParam
  | constraint
  | param
  | exception
  deriving DecidableEq, Repr, Inhabited

namespace Kind

def all : List Kind :=
  [.ns, .cls, .invoker, .iface, .enum, .field, .method, .ctor, .implements, .typeParam,
    .constraint, .param, .exception]

theorem mem_all (k : Kind) : k ∈ all := by cases k <;> decide

/-- The word for a kind in keys and reports. -/
def word : Kind → String
  | .ns => "namespace"
  | .cls => "class"
  | .invoker => "invoker"
  | .iface => "interface"
  | .enum => "enum"
  | .field => "field"
  | .method => "method"
  | .ctor => "constructor"
  | .implements => "implements"
  | .typeParam => "typeParameter"
  | .constraint => "typeParameterGenericConstraint"
  | .param => "methodParameter"
  | .exception => "exception"

theorem word_injective {a b : Kind} (h : a.word = b.word) : a = b := by
  cases a <;> cases b <;> first | rfl | exact absurd h (by decide)

/-- The label of a kind in dumps and tables. -/
def label : Kind → String
  | .ns => "Namespace"
  | .cls => "Class"
  | .invoker => "Class (invoker)"
  | .iface => "Interface"
  | .enum => "Enum"
  | .field => "Field"
  | .method => "Method"
  | .ctor => "Constructor"
  | .implements => "Implements"
  | .typeParam => "Type Parameter"
  | .constraint => "Type Parameter Generic Constraint"
  | .param => "Method Parameter"
  | .exception => "Exception"

/-- Types: the elements that have base types and stand in the index. -/
def isType : Kind → Bool
  | .cls | .invoker | .iface | .enum => true
  | _ => false

def isClass : Kind → Bool
  | .cls | .invoker => true
  | _ => false

/-- The kind that a word names. -/
def ofWord? (word : String) : Option Kind := all.find? (·.word = word)

/-- The key of an element of this kind whose plain name is taken. -/
def keyed (k : Kind) (name : String) : String := k.word ++ ":" ++ name

end Kind

end BindingTree

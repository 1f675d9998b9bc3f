import BindingTree.Naming.Dotted
import BindingTree.Text.Blank
import BindingTree.Text.Casing

/-! Names made from names: interfaces gain an `I`, invokers a suffix, both on the last segment
only; a type reference loses its arguments and brackets. -/

namespace BindingTree.Naming

open Text

/-- Whether a segment reads as `I` followed by a capital. -/
def hasInterfaceMark : List Char → Bool
  | 'I' :: c :: _ => isUppercase c
  | _ => false

def markInterface (segment : List Char) : List Char :=
  if segment = [] || hasInterfaceMark segment then segment else 'I' :: segment

/-- The managed name of an interface. -/
def interfaceName (managed : String) : String :=
  String.ofList (withLast markInterface managed.toList)

def invokerSuffix : List Char := "Invoker".toList

def markInvoker (segment : List Char) : List Char :=
  if invokerSuffix.isSuffixOf segment then segment else segment ++ invokerSuffix

/-- The name of an interface's invoker. -/
def invokerName (name : String) : String :=
  if name = "" then "" else String.ofList (withLast markInvoker name.toList)

/-- A type reference without its arguments and array brackets. -/
def eraseReference (type : String) : String :=
  String.ofList (trim (type.toList.takeWhile fun c => c ≠ '<' && c ≠ '['))

end BindingTree.Naming

import BindingTree.Build.Draft
import BindingTree.Text.Blank

/-! Markers of what came from records: namespaces are mapped to their managed names, types and
members are registered under their native names. -/

namespace BindingTree.Build

open Text

/-- A text with another character for each dot. -/
def withoutDots (c : Char) (s : String) : String :=
  String.ofList (s.toList.map fun d => if d = '.' then c else d)

/-- The native name of a type: slashes between packages, dollar signs between nested types. -/
def nativeTypeName (h : Hierarchy) (i : ElementId) : String :=
  let owners := h.ancestors i
  let types := i :: owners.takeWhile fun j => h.kind j ≠ .ns
  let nested := "$".intercalate (types.reverse.map fun j => withoutDots '$' (h.element j).name)
  match owners.find? fun j => h.kind j = .ns with
  | none => nested
  | some ns =>
    if h.fullName ns = "" then nested else withoutDots '/' (h.fullName ns) ++ "/" ++ nested

/-- A level is a positive number of 32 bits in decimal digits, with blanks around it and a plus
sign before it allowed. -/
def levelOf (text : String) : Option UInt32 :=
  let cs := trim text.toList
  let digits := if cs.head? = some '+' then cs.tail else cs
  let n := Json.digitsValue digits
  if digits ≠ [] && digits.all Char.isDigit && 0 < n && n < Nat.pow 2 32 then some (UInt32.ofNat n)
  else none

def apiLevel (e : Element) : Option UInt32 := e.apiSince.bind levelOf

/-- The marker of an element, if its kind has one. -/
def marker? (h : Hierarchy) (i : ElementId) : Option Marker :=
  let e := h.element i
  match e.kind with
  | .ns => some (.mapping e.fullName e.fullManagedText)
  | .cls | .iface =>
    some (.register { name := nativeTypeName h i, skipWrapper := true, apiSince := apiLevel e })
  | .method | .field =>
    some (.register { name := e.name, signature := e.jniSignature, apiSince := apiLevel e })
  | .ctor =>
    some (.register { name := "<init>", signature := e.jniSignature, apiSince := apiLevel e })
  | _ => none

def markElement (h : Hierarchy) (i : ElementId) : Hierarchy :=
  if (h.element i).isBound then
    match marker? h i with
    | some a => h.modify i (Element.mark a)
    | none => h
  else h

def mark : Build Unit := edit fun h => h.walkAll.foldl markElement h

end BindingTree.Build

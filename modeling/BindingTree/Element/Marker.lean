/-! Markers that the code generator writes before an element. -/

namespace BindingTree

/-- Binds a type or member to its native counterpart. -/
structure Registration where
  /-- The native name, with slashes between packages and dollar signs between nested types. -/
  name : String
  signature : Option String := none
  connector : Option String := none
  /-- No native counterpart is to be generated. -/
  skipWrapper : Bool := false
  apiSince : Option UInt32 := none
  deriving DecidableEq, Repr

inductive Marker where
  | register (r : Registration)
  | mapping (native managed : String)
  deriving DecidableEq, Repr

def quote (s : String) : String := "\"" ++ s ++ "\""

/-- Signature and connector stand bare if both are there, and under their names otherwise. -/
def Registration.bindingText (r : Registration) : String :=
  match r.signature, r.connector with
  | some s, some c => ", " ++ quote s ++ ", " ++ quote c
  | some s, none => ", Signature=" ++ quote s
  | none, some c => ", Connector=" ++ quote c
  | none, none => ""

def Registration.levelText (r : Registration) : String :=
  match r.apiSince with
  | some level => if level = 0 then "" else ", ApiSince=" ++ toString level.toNat
  | none => ""

def Marker.text : Marker → String
  | .register r =>
    "[Register (" ++ quote r.name ++ r.bindingText
      ++ (if r.skipWrapper then ", DoNotGenerateAcw=true" else "") ++ r.levelText ++ ")]"
  | .mapping native managed =>
    "[NamespaceMapping (Java=" ++ quote native ++ ", Managed=" ++ quote managed ++ ")]"

end BindingTree

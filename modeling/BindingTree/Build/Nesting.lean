import BindingTree.Build.ManagedNames

/-! Nesting by name: a type called `a.B.C` belongs under the class `a.B`, an enum under whatever
namespace or type its qualifier names. Moves are planned against an unchanged hierarchy and made
together. -/

namespace BindingTree.Build

open Naming

/-- The element that the qualifier of a full name leads to, if it is of an accepted kind. A
qualifier that leads nowhere is a failure. -/
def newOwner? (accept : Kind → Bool) (i : ElementId) : Build (Option ElementId) := do
  let e ← element i
  match (splitLast e.fullName).1 with
  | none => return none
  | some qualifier =>
    let owner ← lookup qualifier none e
    if owner ≠ i && accept (← element owner).kind then return some owner else return none

/-- Plans a move and reports one that was planned before. -/
def planMove (m : Moves) (i owner : ElementId) : Build Moves := do
  match m.target? i with
  | some previous =>
    let h ← hierarchy
    notice (.alreadyMoved (h.fullName i) (h.fullName previous))
  | none => pure ()
  return m.plan i owner

/-- Plans the moves of elements to their new owners. -/
def planMoves (accept : Kind → Bool) (m : Moves) : List ElementId → Build Moves
  | [] => return m
  | i :: is => do
    match ← newOwner? accept i with
    | some owner => planMoves accept (← planMove m i owner) is
    | none => planMoves accept m is

/-- Shortens the name of an element to what its full name adds to its owner's. -/
def rebase (h : Hierarchy) (i : ElementId) : Hierarchy :=
  match h.owner i with
  | .element p => match stripQualifier? (h.fullName p) (h.fullName i) with
    | some name => h.modify i fun e => { e with name }
    | none => h
  | _ => h

/-- Nests the members of namespaces under the classes that their full names point at. -/
def nestTypes : Build Unit := do
  let h ← hierarchy
  let moves ← planMoves Kind.isClass {} (h.namespaces.flatMap h.members)
  let moved ← onHierarchy moves.apply
  moved.forM fun i => edit (rebase · i)

/-- What an enum may be nested under. -/
def ownsEnums : Kind → Bool
  | .ns | .cls | .iface => true
  | _ => false

/-- Gives an enum and what is below it the names that follow from a new place. The keys from its
time at the top go. -/
def renameEnum (t : Translator) (i : ElementId) : Build Unit := do
  let e ← element i
  remove .native e.fullName i
  match e.fullManagedName with
  | some managed => remove .managed managed i
  | none => pure ()
  let h ← hierarchy
  editElement i fun e => { e with fullName := h.composeFullName (h.owner i) e.name }
  addNative i
  assignManagedNamesFrom t i

/-- Nests the enums at the top under the elements that their qualifiers lead to, by native or by
managed names. -/
def nestEnums (t : Translator) : Build Unit := do
  let moves ← planMoves ownsEnums {} (← hierarchy).rootEnums
  let moved ← onHierarchy moves.apply
  moved.forM (renameEnum t)

end BindingTree.Build

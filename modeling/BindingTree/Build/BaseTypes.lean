import BindingTree.Build.Draft

/-! Base types. Each type gets the elements that its base names lead to, or the default base of
its kind; after that the records of implemented interfaces have done their part and go. -/

namespace BindingTree.Build

/-- Looks base names up, leaving out the type itself and repetitions. -/
def findBases (i : ElementId) (e : Element) (found : List ElementId) :
    List String → Build (List ElementId)
  | [] => return found
  | name :: names => do
    let base ← lookup name (some .iface) e
    findBases i e (if base ≠ i && base ∉ found then found ++ [base] else found) names

/-- The base of a type that names none, unless that is the type itself. -/
def defaultBase (s : Settings) (i : ElementId) (e : Element) : Build (List ElementId) := do
  let base ← match e.kind with
    | .iface => lookup s.baseInterface (some .iface) e
    | _ => lookup s.rootType (some .cls) e
  return if base = i then [] else [base]

def resolveBases (s : Settings) (i : ElementId) : Build Unit := do
  let e ← element i
  match e.facts? with
  | none => pure ()
  | some facts =>
    unless facts.basesFixed || facts.bases.isSome do
      let found ← findBases i e [] facts.baseNames
      let bases ← if found = [] then defaultBase s i e else pure found
      editElement i (Element.withFacts fun f => { f with bases := some bases })

/-- Takes an element from its owner. -/
def removeFromOwner (h : Hierarchy) (i : ElementId) : Hierarchy :=
  match h.owner i with
  | .element _ => h.detach i
  | _ => h

def resolveBaseTypes (s : Settings) : Build Unit := do
  (← hierarchy).types.forM (resolveBases s)
  let h ← hierarchy
  edit fun _ => (h.walkAll.filter fun i => h.kind i = .implements).foldl removeFromOwner h

end BindingTree.Build

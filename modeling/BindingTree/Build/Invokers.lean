import BindingTree.Build.ManagedNames

/-! Invokers: classes that call an interface, each beside the interface it calls. -/

namespace BindingTree.Build

open Naming

/-- Whether an element is an interface that still lacks an invoker. -/
def lacksInvoker (e : Element) : Bool :=
  e.kind = .iface && e.facts?.any fun f => f.invoker.isNone && !f.needsNoInvoker

/-- The invoker of an interface; it derives from the root type and the interface. -/
def invokerOf (s : Settings) (h : Hierarchy) (owner interface : ElementId) : Element :=
  let e := h.element interface
  let name := invokerName e.name
  let facts : TypeFacts :=
    { info := { visibility := .internal }
      baseNames := [s.rootType, e.fullName]
      invoked := some interface }
  { Element.fresh (.type .invoker facts) name with
    fullName := h.composeFullName (.element owner) name }

/-- Makes the invoker of an interface and links the two. -/
def makeInvoker (p : Plan) (interface : ElementId) : Build Unit := do
  let h ← hierarchy
  match h.owner interface with
  | .element owner =>
    let invoker ← make (invokerOf p.settings h owner interface)
    addMember owner invoker
    assignManagedName p.translator invoker
    addNative invoker
    editElement interface (Element.withFacts fun f => { f with invoker := some invoker })
  | _ => fail (.invalidElement (.rootedInterface (h.fullName interface)))

def makeInvokers (p : Plan) : Build Unit := do
  let h ← hierarchy
  (h.walkAll.filter fun i => lacksInvoker (h.element i)).forM (makeInvoker p)

end BindingTree.Build

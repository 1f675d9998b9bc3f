import BindingTree.Hierarchy.Walk

/-! The dump of a hierarchy: one line for each element below the top, moved in by a tab for each
owner. -/

namespace BindingTree.Hierarchy

def indent (depth : Nat) (line : String) : String :=
  String.ofList (List.replicate depth '\t') ++ line

/-- The lines of an element that stands at `depth` and of what is below it within `n` levels. -/
def dumpTo (h : Hierarchy) : Nat → Nat → ElementId → List String
  | 0, _, _ => []
  | n + 1, depth, i =>
    indent depth (h.element i).dumpLine :: (h.members i).flatMap (h.dumpTo n (depth + 1))

def dump (h : Hierarchy) : List String :=
  (h.namespaces ++ h.rootEnums).flatMap (h.dumpTo h.size 0)

/-- The dump as the content of a file. -/
def dumpText (h : Hierarchy) : String := String.join (h.dump.map (· ++ "\n"))

end BindingTree.Hierarchy

import BindingTree.Build.Markers
import BindingTree.Build.BaseTypes
import BindingTree.Build.Bootstrap
import BindingTree.Build.Ingest
import BindingTree.Build.Invokers
import BindingTree.Build.Nesting

/-! Building a hierarchy from a forest of records. The passes go over the whole draft one after
the other; the first failure ends the build. -/

namespace BindingTree

open Naming (Translator)

namespace Plan

/-- A plan with the translator that the settings ask for. -/
def ofSettings (s : Settings) : Plan := ⟨s, .platform s.raisePairs s.keepDots⟩

/-- The passes of a build. -/
def passes (p : Plan) (rs : List Record) : Build Unit := do
  Build.ingest rs
  Build.bootstrap p.settings
  Build.nestTypes
  Build.assignManagedNames p.translator
  Build.nestEnums p.translator
  Build.makeInvokers p
  Build.resolveBaseTypes p.settings
  Build.mark

/-- A draft with nothing in it. -/
def blank (p : Plan) : Draft := { registry := .empty p.settings.policy }

end Plan

/-- What a build ends in, with what was noticed on the way. -/
structure Report where
  result : Except Failure Hierarchy
  notices : List Notice

def Report.diagnostics (r : Report) : List Diagnostic := r.notices.map Notice.diagnostic

/-- Builds the hierarchy of a forest. -/
def Plan.build (p : Plan) (rs : List Record) : Report :=
  if rs.isEmpty then ⟨.error .emptyInput, []⟩
  else match p.passes rs p.blank with
    | .ok () d => ⟨.ok d.hierarchy, d.registry.log⟩
    | .error failure d => ⟨.error failure, d.registry.log⟩

end BindingTree

import BindingTree.Build.Basic
import BindingTree.CommandLine.Arguments
import BindingTree.CommandLine.Folder
import BindingTree.CommandLine.Table
import BindingTree.Hierarchy.Dump
import BindingTree.Json.Printer
import BindingTree.Record.Codec
import BindingTree.Record.Schema

/-! Running a command: what it prints, what it leaves on the disk, and its exit status. -/

namespace BindingTree.CommandLine

structure Outcome where
  status : Nat
  lines : List String := []
  deriving DecidableEq, Repr

/-- What is printed: each line with its end. A path in a line may hold line ends of its own. -/
def Outcome.text (o : Outcome) : String := String.join (o.lines.map (· ++ "\n"))

/-- The status of a success, of a command that failed, of misuse, and of a log that cannot be
kept. -/
def Outcome.success (lines : List String) : Outcome := ⟨0, lines⟩

def Outcome.failure (lines : List String) : Outcome := ⟨1, lines⟩

def Outcome.misuse : Outcome := ⟨2, []⟩

def Outcome.noLog : Outcome := ⟨101, []⟩

/-- The kinds that a hierarchy has, with their numbers. -/
def summary (h : Hierarchy) : List String :=
  tableLines ["Kind", "Count"]
    ((Kind.all.filter fun k => 0 < h.count k).map fun k => [k.label, toString (h.count k)])

/-- One line on the diagnostics of a build, if there are any. -/
def warnings (ds : List Diagnostic) : List String :=
  let count (k : DiagnosticKind) := toString (Diagnostic.count k ds)
  if ds = [] then []
  else [toString ds.length ++ " warnings (" ++ count .unsupportedKind ++ " unsupported elements, "
    ++ count .duplicateEntry ++ " duplicate index entries, " ++ count .alreadyMoved
    ++ " repeated re-parentings)"]

/-- The path of a dump that is given none. -/
def defaultDumpPath (input : String) : String := input ++ ".hierarchy"

/-- The settings for a build from the texts of the settings file and the flag. -/
def settingsOf (text : Option String) (strict : Bool) : Except Json.Fault Settings := do
  let s ← match text with
    | some text => Settings.read text
    | none => pure {}
  return if strict then s.strict else s

/-- The hierarchy of an input and the diagnostics on the way, if all goes well. -/
def hierarchyOf (settings : Settings) (input : String) : Option (Hierarchy × List Diagnostic) :=
  match Record.readForest input with
  | .error _ => none
  | .ok rs =>
    let report := (Plan.ofSettings settings).build rs
    match report.result with
    | .ok h => some (h, report.diagnostics)
    | .error _ => none

variable {m : Type → Type} [Monad m]

/-- Reads the settings file, if one is named. -/
def readSettings (disk : Disk m) (o : BuildOptions) : m (Option Settings) := do
  match o.config with
  | none => return (settingsOf none o.strict).toOption
  | some path => match ← disk.read path with
    | some text => return (settingsOf (some text) o.strict).toOption
    | none => return none

def runBuild (disk : Disk m) (input : String) (o : BuildOptions) : m Outcome := do
  let some settings ← readSettings disk o | return .failure []
  let some text ← disk.read input | return .failure []
  let some (h, ds) := hierarchyOf settings text | return .failure []
  let lines := summary h ++ warnings ds
  match o.dump with
  | none => return .success lines
  | some path =>
    let path := path.getD (defaultDumpPath input)
    if ← disk.write path h.dumpText then
      return .success (lines ++ ["Hierarchy dump written to " ++ path])
    else return .failure lines

def runSchema (disk : Disk m) (output : Option String) : m Outcome := do
  let text := Record.schema.pretty
  match output with
  | none => return .success (text.splitOn "\n")
  | some path => return if ← disk.write path text then .success [] else .failure []

/-- Runs the command that the arguments ask for. -/
def run (disk : Disk m) (args : List String) : m Outcome := do
  match Request.ofArguments args with
  | .misuse => return .misuse
  | .version => return .success ["bindscope 0.1.0"]
  | .help => return .success ["Usage: bindscope [OPTIONS] <COMMAND>"]
  | .run logDir command =>
    let logged ← match logDir with
      | some path => disk.openLog path
      | none => pure true
    if !logged then return .noLog
    match command with
    | .build input o => runBuild disk input o
    | .schema output => runSchema disk output

end BindingTree.CommandLine

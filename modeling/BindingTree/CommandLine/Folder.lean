import BindingTree.KeyedList
import BindingTree.Text.Pieces

/-! Files as the command line sees them, and a tree of folders that is kept in memory. A path is
walked step by step, and each step but the last has to end at a folder that is there, also where
the next step goes back up. -/

namespace BindingTree.CommandLine

/-- What the command line asks of a file system. -/
structure Disk (m : Type → Type) where
  /-- The content of a file. -/
  read : String → m (Option String)
  /-- Writes a file and tells whether that went well. -/
  write : String → String → m Bool
  /-- Makes a folder for logs, with the folders above it, and tells whether a log can be kept
  there. -/
  openLog : String → m Bool

/-- The names on the way to a file or folder, the innermost first. -/
abbrev Place := List String

namespace Place

def top : Place := []

/-- The working folder. It stands below the top under a name that no path has. -/
def working : Place := [""]

/-- Where a step leads: nowhere, up, or down to a name. A step up from the top stays there. -/
def step (place : Place) (s : String) : Place :=
  if s = "" ∨ s = "." then place else if s = ".." then place.tail else s :: place

/-- A path that begins with a slash is walked from the top. -/
def start (path : String) : Place := if path.toList.head? = some '/' then top else working

end Place

/-- The steps of a path. -/
def stepsOf (path : String) : List String :=
  (Text.pieces (· = '/') path.toList).map String.ofList

/-- The most bytes in a name. -/
def longestName : Nat := 255

/-- The most bytes in a path. -/
def longestPath : Nat := 4095

/-- Files and folders by their places. -/
structure Folder where
  files : KeyedList Place String := {}
  folders : List Place := [Place.top, Place.working]

namespace Folder

/-- The folder at the end of some steps. -/
def walk? (f : Folder) (place : Place) : List String → Option Place
  | [] => some place
  | s :: rest => if place.step s ∈ f.folders then f.walk? (place.step s) rest else none

/-- The place of a file: its folder is there, and its last step is a name. -/
def place? (f : Folder) (path : String) : Option Place := do
  let steps := stepsOf path
  let name ← steps.getLast?
  if name ∈ ["", ".", ".."] ∨ longestPath < path.utf8ByteSize then none
  else return name :: (← f.walk? (Place.start path) steps.dropLast)

def read (f : Folder) (path : String) : Option String := f.place? path >>= f.files.get?

def namesFit (place : Place) : Bool := place.all fun name => name.utf8ByteSize ≤ longestName

/-- A file can be written where no folder has its name. -/
def write (f : Folder) (path content : String) : Option Folder := do
  let place ← f.place? path
  if f.folders.contains place || !namesFit place then none
  else some { f with files := f.files.put place content }

/-- Walks some steps and makes the folders that are missing on the way. What it has made stays if
a later step cannot be taken. -/
def makeAlong (f : Folder) (place : Place) : List String → Bool × Folder
  | [] => (true, f)
  | s :: rest =>
    let next := place.step s
    if next ∈ f.folders then f.makeAlong next rest
    else if (f.files.get? next).isSome || !namesFit next then (false, f)
    else makeAlong { f with folders := f.folders ++ [next] } next rest

/-- The path of a log in a folder. A log is named for its day, and all such names are equally
long. -/
def logPath (path : String) : String :=
  path ++ (if path.toList.getLast? = some '/' then "" else "/") ++ "bindscope.0000-00-00"

def openLog (f : Folder) (path : String) : Bool × Folder :=
  if longestPath < path.utf8ByteSize then (false, f)
  else
    let (made, f) := f.makeAlong (Place.start path) (stepsOf path)
    (made && (f.place? (logPath path)).isSome, f)

/-- A folder with the given files and the folders that they stand in. -/
def ofFiles (files : List (String × String)) : Folder :=
  files.foldl (fun f file =>
    let f := (f.makeAlong (Place.start file.1) (stepsOf file.1).dropLast).2
    (f.write file.1 file.2).getD f) {}

/-- The folder as a disk; a file that cannot be written leaves it as it is. -/
def disk : Disk (StateM Folder) where
  read path := return (← get).read path
  write path content := fun f => match f.write path content with
    | some f => (true, f)
    | none => (false, f)
  openLog path := fun f => f.openLog path

end Folder

end BindingTree.CommandLine

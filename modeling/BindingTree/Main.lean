import BindingTree.CommandLine.Run

/-! The command line on the files of the system. -/

open BindingTree CommandLine

def systemDisk : Disk IO where
  read path := try return some (← IO.FS.readFile path) catch _ => return none
  write path content := try IO.FS.writeFile path content; return true catch _ => return false
  openLog path := try IO.FS.createDirAll path; return true catch _ => return false

def main (args : List String) : IO UInt32 := do
  let outcome ← run systemDisk args
  IO.print outcome.text
  return UInt32.ofNat outcome.status

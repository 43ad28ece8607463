import InPlace.Files.Changes
import InPlace.Project.Tag

/-!
# The program

Reads the files of the working directory, does what the arguments ask for, says what the command says and
writes what it changed. All decisions are made by the command; here are only the reading and the writing.
-/

namespace InPlace.Program

open Files

/-- The entries of a directory. A link is kept with the place it leads to in the end; what cannot be read
is left out. -/
partial def readEntries (path : String) : IO (List (String × Tree)) := do
  let mut entries := []
  for e in ← (← IO.FS.realPath path).readDir do
    let place := e.path.toString
    try
      let t ← match (← e.path.symlinkMetadata).type with
        | .dir => pure (Tree.dir (← readEntries place))
        | .symlink => pure (Tree.link (← IO.FS.realPath place).toString)
        | _ => pure (Tree.file (← IO.FS.readBinFile place))
      entries := entries ++ [(e.fileName, t)]
    catch _ => pure ()
  return entries

/-- Adds what is at a path to a tree, if anything is. -/
def addPath (t : Tree) (path : String) : IO Tree := do
  match t.makeDirs (Text.Path.ancestorsOf path) with
  | .error _ => return t
  | .ok made =>
    try
      return made.put (pathNames path) (.dir (← readEntries path))
    catch _ =>
      try
        return made.put (pathNames path) (.file (← IO.FS.readBinFile path))
      catch _ => return t

/-- The files that a command works on. -/
def readTree (dir : String) : Invocation → IO Tree
  | .init _ => addPath (.dir []) dir
  | .tag args => do
    let t ← addPath (.dir []) dir
    let target := Text.Path.join dir (args.path.getD ".")
    if t.pathExists target then return t else addPath t target

/-- Writes a change to the disk. -/
def writeChange (change : Place × Tree) : IO Unit := do
  let path := fun (place : Place) => "/" ++ "/".intercalate place
  match change.2 with
  | .file content =>
    IO.FS.createDirAll (path change.1.dropLast)
    IO.FS.writeBinFile (path change.1) content
  | .dir _ => IO.FS.createDirAll (path change.1)
  | .link _ => pure ()

/-- Prints a line where it belongs. -/
def sayLine : Line → IO Unit
  | .out s => IO.println s
  | .err s => IO.eprintln s

/-- Runs a command in a directory; gives the number with which the program ends. -/
def perform (i : Invocation) (dir : String) : IO UInt32 := do
  let files ← readTree dir i
  let (job, fault) := i.run dir files
  (files.changesTo job.files).forM writeChange
  job.lines.forM sayLine
  match fault with
  | none => return 0
  | some f =>
    IO.eprint f.report
    return 1

/-- What is printed when the program is asked for help. -/
def helpText : String :=
  "Usage: liveedit init [--src-dir DIR] [--out-dir DIR] [--source-maps] [--force]\n"
    ++ "       liveedit tag [PATH] [--mode MODE] [--stdout] [--out-dir DIR] [--source-maps]"

/-- Says why the arguments lead to no command. -/
def complain (fault : UsageFault) : IO UInt32 := do
  if fault = .versionWanted then IO.println versionText
  else if fault.exitCode = 0 then IO.println helpText
  else IO.eprintln helpText
  return fault.exitCode.toUInt32

end InPlace.Program

/-- The program. -/
def main (args : List String) : IO UInt32 := do
  match InPlace.Invocation.ofArguments args with
  | .error fault => InPlace.Program.complain fault
  | .ok i => InPlace.Program.perform i (← IO.currentDir).toString

import InPlace.Project.Config

/-!
# What a command does

A command changes the file tree, says what it does line by line, and may fail.
-/

namespace InPlace

/-- A line that a command says. -/
inductive Line where
  | out (text : String)
  /-- A complaint. -/
  | err (text : String)
  deriving DecidableEq, Repr

/-- Why a command failed. -/
inductive JobFault where
  | config (fault : ConfigFault)
  | os (fault : Files.OsError)
  | missingPath (path : String)
  deriving DecidableEq, Repr

/-- Why a program ends, as it is printed. -/
def JobFault.message : JobFault → String
  | config fault => fault.message
  | os fault => fault.message
  | missingPath path => "Path does not exist: " ++ Text.Quoted.quotePath path

/-- What is said in the end about a command that failed. -/
def JobFault.report (fault : JobFault) : String :=
  "\nError: " ++ fault.message ++ "\n\n"

/-- A command at work: the files as they are now, and what it has said. -/
structure Job where
  files : Files.Tree
  lines : List Line := []
  deriving Inhabited

namespace Job

/-- Prints a line. -/
def say (j : Job) (text : String) : Job :=
  { j with lines := j.lines ++ [.out text] }

/-- Prints a line where errors go. -/
def complain (j : Job) (text : String) : Job :=
  { j with lines := j.lines ++ [.err text] }

/-- What was said on one of the two channels. -/
def textOf (j : Job) (choose : Line → Option String) : String :=
  String.join (j.lines.filterMap choose |>.map fun s => s ++ "\n")

/-- All that was printed. -/
def out (j : Job) : String :=
  j.textOf fun
    | .out s => some s
    | .err _ => none

/-- All that was printed where errors go. -/
def err (j : Job) : String :=
  j.textOf fun
    | .err s => some s
    | .out _ => none

end Job

/-- A job that is done, and why it failed if it did. -/
abbrev Done := Job × Option JobFault

end InPlace

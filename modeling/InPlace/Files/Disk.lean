import InPlace.Files.Tree
import InPlace.Text.Path
import InPlace.Text.Split

/-!
# File operations

Reading and changing a file tree through paths. A path is followed name by name, and through the links on
its way; a relative link begins in the directory it stands in. Names in front of which a file stands, names
that are missing and links without end are errors of the operating system.

Main statements: `locatePath_eq_ok_iff` and `read_eq_ok_iff` (what a path leads to is what is read).
-/

namespace InPlace.Files

/-- Why a file operation failed. -/
inductive OsError where
  | notFound
  | alreadyExists
  | notDirectory
  | isDirectory
  | nameTooLong
  | tooManyLinks
  /-- No path holds a zero. -/
  | zeroInPath
  /-- The bytes of the file are no text. -/
  | notText
  deriving DecidableEq, Repr, Inhabited

/-- A fault as the operating system words it. -/
def OsError.message : OsError → String
  | notFound => "No such file or directory (os error 2)"
  | alreadyExists => "File exists (os error 17)"
  | notDirectory => "Not a directory (os error 20)"
  | isDirectory => "Is a directory (os error 21)"
  | nameTooLong => "File name too long (os error 36)"
  | tooManyLinks => "Too many levels of symbolic links (os error 40)"
  | zeroInPath => "file name contained an unexpected NUL byte"
  | notText => "stream did not contain valid UTF-8"

/-- The names on a path. -/
def pathNames (path : String) : List String :=
  ((Text.splitAt '/' path.toList).filter fun part => !part.isEmpty).map String.ofList

/-- The names on a path; a slash at its end asks for a directory, as a single dot does. -/
def pathSteps (path : String) : List String :=
  if Text.Path.endsInSlash path then pathNames path ++ ["."] else pathNames path

/-- Links that are followed on the way to one place. -/
def maxLinks : Nat := 40

/-- Bytes in a name. -/
def maxNameLength : Nat := 255

/-- Where a path leads: to a place in the tree, or to a name that is missing in a directory. -/
inductive Located where
  | found (place : Place)
  | absent (parent : Place) (name : String)
  deriving DecidableEq, Repr

namespace Tree

/-- Follows the names `todo` from the place `here`. What comes after a link, the names of the link before the rest, is
left to `through`. -/
def locateFrom (t : Tree) (through : Place → List String → Except OsError Located) (here : Place) (todo : List String) :
    Except OsError Located :=
  match todo with
  | [] => .ok (.found here)
  | name :: rest =>
    match t.get? here with
    | some (.dir es) =>
      if name = "." then t.locateFrom through here rest
      else if name = ".." then t.locateFrom through here.dropLast rest
      else if maxNameLength < name.utf8ByteSize then .error .nameTooLong
      else
        match lookup name es with
        | none => if rest.isEmpty then .ok (.absent here name) else .error .notFound
        | some (.link target) =>
          through (if Text.Path.isAbsolute target then [] else here) (pathSteps target ++ rest)
        | some _ => t.locateFrom through (here ++ [name]) rest
    | _ => .error .notDirectory
  termination_by structural todo

/-- Follows names from a place, through at most `links` links. -/
def locate (t : Tree) (links : Nat) : Place → List String → Except OsError Located :=
  match links with
  | 0 => t.locateFrom fun _ _ => .error .tooManyLinks
  | n + 1 => t.locateFrom (t.locate n)

/-- No names lead nowhere else. -/
theorem locate_nil (t : Tree) (links : Nat) (here : Place) :
    t.locate links here [] = .ok (.found here) := by
  cases links <;> rfl

/-- Follows a path from the top. -/
def locatePath (t : Tree) (path : String) : Except OsError Located :=
  if path.toList.contains '\x00' then .error .zeroInPath
  else if path.isEmpty then .error .notFound
  else t.locate maxLinks [] (pathSteps path)

/-- What a path leads to. -/
def read (t : Tree) (path : String) : Except OsError Tree :=
  match t.locatePath path with
  | .ok (.found place) =>
    match t.get? place with
    | some u => .ok u
    | none => .error .notFound
  | .ok (.absent _ _) => .error .notFound
  | .error e => .error e

variable {t u : Tree} {path : String}

/-- A path leads where its names lead. -/
theorem locatePath_eq_ok_iff {l : Located} : t.locatePath path = .ok l ↔
    path.toList.contains '\x00' = false ∧ path.isEmpty = false ∧ t.locate maxLinks [] (pathSteps path) = .ok l := by
  unfold locatePath
  cases path.toList.contains '\x00' with
  | true => simp
  | false => cases path.isEmpty <;> simp

/-- What is read is what a path leads to. -/
theorem read_eq_ok_iff : t.read path = .ok u ↔
    ∃ place, t.locatePath path = .ok (.found place) ∧ t.get? place = some u := by
  unfold read
  cases t.locatePath path with
  | error e => simp
  | ok l =>
      cases l with
      | absent parent name => simp
      | found place => cases there : t.get? place <;> simp [there]

/-- What a path leads to is what is read. -/
theorem read_eq_of_locate {place : Place} (h : t.locatePath path = .ok (.found place)) (hu : t.get? place = some u) :
    t.read path = .ok u :=
  read_eq_ok_iff.2 ⟨place, h, hu⟩

/-- Whether a path leads to anything. -/
def pathExists (t : Tree) (path : String) : Bool :=
  (t.read path).toOption.isSome

/-- Whether a path leads to a directory. -/
def isDir (t : Tree) (path : String) : Bool :=
  match t.read path with
  | .ok (.dir _) => true
  | _ => false

/-- Whether a path leads to a file. -/
def isFile (t : Tree) (path : String) : Bool :=
  match t.read path with
  | .ok (.file _) => true
  | _ => false

/-- The text of a file. -/
def readText (t : Tree) (path : String) : Except OsError String :=
  match t.read path with
  | .ok (.file content) =>
    match String.fromUTF8? content with
    | some s => .ok s
    | none => .error .notText
  | .ok _ => .error .isDirectory
  | .error e => .error e

/-- Writes a text to a file, in place of what it held. -/
def writeText (t : Tree) (path text : String) : Except OsError Tree :=
  match t.locatePath path with
  -- a link has been followed, so the file it leads to is written
  | .ok (.found place) =>
    match t.get? place with
    | some (.dir _) => .error .isDirectory
    | _ => .ok (t.put place (.file text.toUTF8))
  | .ok (.absent parent name) => .ok (t.put (parent ++ [name]) (.file text.toUTF8))
  | .error e => .error e

/-- Makes a directory with a name in the place that a list of names leads to. -/
def makeEntry (t : Tree) (parent : List String) (name : String) : Except OsError Tree :=
  match t.locate maxLinks [] parent with
  | .error e => .error e
  | .ok (.absent _ _) => .error .notFound
  | .ok (.found place) =>
    match t.get? place with
    | some (.dir es) =>
      if name = "." ∨ name = ".." then .error .alreadyExists
      else if maxNameLength < name.utf8ByteSize then .error .nameTooLong
      else if (lookup name es).isSome then .error .alreadyExists
      else .ok (t.put (place ++ [name]) (.dir []))
    | _ => .error .notDirectory

/-- Makes a directory in one that is there. -/
def makeDir (t : Tree) (path : String) : Except OsError Tree :=
  if path.toList.contains '\x00' then .error .zeroInPath
  else
    match (pathNames path).getLast? with
    | none => .error (if path.isEmpty then .notFound else .alreadyExists)
    | some name => t.makeEntry (pathNames path).dropLast name

/-- Makes a directory, unless it is there. -/
def makeDirOrKeep (t : Tree) (path : String) : Except OsError Tree :=
  match t.makeDir path with
  | .ok t => .ok t
  | .error e => if t.isDir path then .ok t else .error e

/-- Makes a directory and those above it. The paths are that of the directory and those above it, the
longest first. What was made before a failure stays. -/
def makeAll (t : Tree) : List String → Tree × Option OsError
  | [] => (t, none)
  | path :: above =>
    if path.isEmpty then (t, none)
    else
      match t.makeDir path with
      | .ok t => (t, none)
      -- the directory it belongs in is missing
      | .error .notFound =>
        match t.makeAll above with
        | (t, some e) => (t, some e)
        | (t, none) =>
          match t.makeDirOrKeep path with
          | .ok t => (t, none)
          | .error e => (t, some e)
      | .error e => (t, if t.isDir path then none else some e)

/-- Makes a directory and those above it, if all of them can be made. -/
def makeDirs (t : Tree) (paths : List String) : Except OsError Tree :=
  match t.makeAll paths with
  | (t, none) => .ok t
  | (_, some e) => .error e

end Tree

end InPlace.Files

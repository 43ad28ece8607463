import InPlace.Files.Walk
import InPlace.Project.Init
import InPlace.Tagging.Tagger

/-!
# Tagging a project

Tags the files of a project and writes the result to a directory of its own, file by file: a file that
cannot be read or written does not keep the others from being tagged. How the sources are parsed is a parameter, which
the program sets to the parser of TSX.
-/

namespace InPlace

/-- Whether a file belongs to the project's tagged files. -/
def isEligible (o : Tagging.Options) (excludes : List Text.Glob) (root path : String) : Bool :=
  let relative := Text.Path.relativeTo root path
  o.appliesTo relative && !excludes.any fun g => g.accepts relative

/-- The files to tag: the target itself, or those below it, in the order of their paths. -/
def sourceFiles (t : Files.Tree) (o : Tagging.Options) (excludes : List Text.Glob)
    (target root : String) : List String :=
  let eligible := isEligible o excludes root
  if t.isFile target then [target].filter eligible
  else
    -- vendor directories are not walked, and none of their files is eligible
    ((t.filesBelow o.vendorDirs.contains target).filter eligible).mergeSort fun a b =>
      Text.Path.precedes (Text.Path.names a) (Text.Path.names b)

/-- What has been done so far. -/
structure Summary where
  files : Nat := 0
  elements : Nat := 0
  skippedElements : Nat := 0
  passedThrough : Nat := 0
  errors : Nat := 0
  deriving DecidableEq, Repr, Inhabited

namespace Summary

/-- Counts a file that was tagged. -/
def record (s : Summary) (r : Tagging.Report) : Summary :=
  { s with
    files := s.files + 1
    elements := s.elements + r.inserted
    skippedElements := s.skippedElements + r.failed
    passedThrough := s.passedThrough + (if r.status = .passedThrough then 1 else 0) }

/-- The last line of a run. -/
def text (s : Summary) : String :=
  let counts := "Tagged " ++ toString s.elements ++ " elements in " ++ toString s.files ++ " files"
  if s.errors = 0 ∧ s.passedThrough = 0 then "✅ " ++ counts
  else
    "⚠️ " ++ counts ++ ", " ++ toString s.passedThrough ++ " copied unchanged, " ++ toString s.errors
      ++ " errors"

end Summary

/-- Tags a file. Its path in the identities is relative to the root. -/
def tagSourceFile (parse : String → Option Tsx.Node) (t : Files.Tree) (o : Tagging.Options) (file root : String) :
    Except Files.OsError Tagging.Report :=
  match t.readText file with
  | .ok source => .ok (Tagging.tagWith parse o source (Text.Path.relativeTo root file))
  | .error e => .error e

/-- Where the source map of a file is written. -/
def mapPath (file : String) : String :=
  file ++ ".map"

/-- Writes a source map beside its file, if there is one. -/
def writeMap (t : Files.Tree) (r : Tagging.Report) (file : String) : Files.Tree × Option Files.OsError :=
  match r.map with
  | none => (t, none)
  | some map =>
    match t.writeText (mapPath file) map.text with
    | .ok t => (t, none)
    | .error e => (t, some e)

/-- Writes what became of a file, with the directories that it needs. What was written before a failure
stays. -/
def writeReport (t : Files.Tree) (r : Tagging.Report) (file : String) :
    Files.Tree × Option Files.OsError :=
  match t.makeAll ((Text.Path.ancestorsOf file).drop 1) with
  | (t, some e) => (t, some e)
  | (t, none) =>
    match t.writeText file r.code with
    | .error e => (t, some e)
    | .ok t => writeMap t r file

/-- What is said about a file that was written. -/
def reportLine (name : String) (r : Tagging.Report) (file : String) : String :=
  if r.status = .passedThrough then "  ⚠️ " ++ name ++ " copied unchanged (could not be tagged)"
  else
    let skipped := if r.failed > 0 then ", " ++ toString r.failed ++ " skipped" else ""
    "  ✓ " ++ name ++ " → " ++ file ++ " (" ++ toString r.inserted ++ " elements" ++ skipped ++ ")"

/-- A run over the files of a project. -/
structure TagRun where
  options : Tagging.Options
  /-- The directory of the project. -/
  root : String
  /-- The directory whose files are tagged. -/
  base : String
  /-- The directory for the result; without one the result is printed. -/
  outDir : Option String

namespace TagRun

/-- A path relative to the base. -/
def nameOf (run : TagRun) (file : String) : String :=
  (Text.Path.stripBase? file run.base).getD file

/-- Counts a file that could not be tagged or written, and says why. -/
def fail (j : Job) (s : Summary) (name : String) (e : Files.OsError) : Job × Summary :=
  (j.complain ("  ✗ " ++ name ++ " - " ++ e.message), { s with errors := s.errors + 1 })

/-- Tags one file. -/
def step (run : TagRun) (parse : String → Option Tsx.Node) (state : Job × Summary) (file : String) : Job × Summary :=
  let (j, s) := state
  let name := run.nameOf file
  match tagSourceFile parse j.files run.options file run.root with
  | .error e => fail j s name e
  | .ok r =>
    match run.outDir with
    | none => (j.say r.code, s.record r)
    | some outDir =>
      let output := Text.Path.join outDir name
      match writeReport j.files r output with
      | (files, none) => ({ j with files }.say (reportLine name r output), s.record r)
      -- what was written before the failure stays
      | (files, some e) => fail { j with files } s name e

end TagRun

namespace TagArguments

/-- How the files are tagged: as the project says, and as the arguments say. -/
def options (args : TagArguments) (c : ProjectConfig) : Tagging.Options :=
  let o := c.taggingOptions args.mode
  { o with sourceMaps := (o.sourceMaps || args.sourceMaps) && !args.stdout }

/-- The file or directory to tag. -/
def target (args : TagArguments) (c : ProjectConfig) (dir : String) : String :=
  match args.path with
  | some path => Text.Path.join dir path
  | none => c.srcPath dir

/-- The directory to which paths in the result are relative: the target, or the one around it. -/
def base (target dir : String) (t : Files.Tree) : String :=
  if t.isDir target then target else (Text.Path.parent? target).getD dir

/-- The output directory that was asked for, or the configured one. -/
def outPath (args : TagArguments) (c : ProjectConfig) (dir : String) : String :=
  match args.outDir with
  | some out => Text.Path.join dir out
  | none => c.outPath dir

/-- Tags files one after the other and sums up. -/
def tagFiles (args : TagArguments) (parse : String → Option Tsx.Node) (c : ProjectConfig) (dir : String) (j : Job)
    (files : List String) : Job :=
  let run : TagRun :=
    { options := args.options c
      root := dir
      base := base (args.target c dir) dir j.files
      outDir := if args.stdout then none else some (args.outPath c dir) }
  let (j, s) := files.foldl (run.step parse) (j.say ("Found " ++ toString files.length ++ " files"), {})
  (j.say "").say s.text

/-- Tags the files of a project with a configuration. -/
def runWith (args : TagArguments) (parse : String → Option Tsx.Node) (c : ProjectConfig) (dir : String)
    (files : Files.Tree) : Done :=
  let j : Job := { files }
  let target := args.target c dir
  if !files.pathExists target then (j, some (.missingPath target))
  else if args.mode ≠ .development then
    (j.say "⚠️  Production mode: files are left untagged", none)
  else
    let j := j.say "🏷️  Tagging source files..."
    match c.patterns with
    | .error fault => (j, some (.config fault))
    | .ok excludes =>
      match sourceFiles files (args.options c) excludes target dir with
      | [] => (j.say "⚠️  No taggable files found", none)
      | found => (args.tagFiles parse c dir j found, none)

/-- Tags the files of the project in a directory. -/
def run (args : TagArguments) (parse : String → Option Tsx.Node) (dir : String) (files : Files.Tree) : Done :=
  match ProjectConfig.load files dir with
  | .error fault => ({ files }, some (.config fault))
  | .ok c => args.runWith parse c dir files

end TagArguments

/-- Does what the program is asked for. -/
def Invocation.run (i : Invocation) (dir : String) (files : Files.Tree) : Done :=
  match i with
  | .init args => InitArguments.run args dir files
  | .tag args => TagArguments.run args Tsx.parse dir files

end InPlace

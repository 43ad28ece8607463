import InPlace.Files.Disk
import InPlace.Json.Printer
import InPlace.Json.Reader
import InPlace.Json.Record
import InPlace.Tagging.Options
import InPlace.Text.Glob
import InPlace.Text.Path
import InPlace.Text.Quoted

/-!
# Project configuration

A project says in a file where its sources are, which of them are tagged and where the result goes. What it
does not say has a usual value.
-/

namespace InPlace

/-- What a project says about itself. -/
structure ProjectConfig where
  /-- Directory of the sources. -/
  srcDir : String := "src"
  /-- Extensions of files to tag, without the dot. -/
  extensions : List String := ["js", "jsx", "ts", "tsx"]
  /-- Names of directories whose contents belong to others. -/
  vendorDirs : List String := ["node_modules"]
  /-- Patterns of files to leave alone. -/
  exclude : List String := []
  /-- Directory of the tagged files. -/
  outDir : Option String := none
  /-- Whether a source map is written beside each tagged file. -/
  sourceMaps : Bool := false
  deriving DecidableEq, Repr, Inhabited

/-- Why a configuration cannot be used. -/
inductive ConfigFault where
  | unreadable (path : String) (fault : Files.OsError)
  | malformed (path : String)
  | badPattern (pattern : String) (fault : Text.GlobError)
  deriving DecidableEq, Repr

/-- What is wrong with a configuration, as it is printed. -/
def ConfigFault.message : ConfigFault → String
  | unreadable path fault => "Could not read " ++ path ++ ": " ++ fault.message
  | malformed path => "Invalid " ++ path
  | badPattern pattern fault =>
    "Invalid exclude pattern " ++ Text.Quoted.quote pattern ++ ": " ++ fault.message

namespace ProjectConfig

/-- Name of the configuration file. -/
def fileName : String := "liveedit.config.json"

/-- The names of the fields of a configuration, in order. -/
def fieldNames : List String :=
  ["srcDir", "extensions", "vendorDirs", "exclude", "outDir", "sourceMaps"]

/-- The fields in the order in which they are written. -/
def fields (c : ProjectConfig) : List (String × Json) :=
  [("srcDir", .str c.srcDir), ("extensions", .ofStrings c.extensions),
    ("vendorDirs", .ofStrings c.vendorDirs)]
    ++ (if c.exclude.isEmpty then [] else [("exclude", .ofStrings c.exclude)])
    ++ Json.present "outDir" Json.str c.outDir
    ++ [("sourceMaps", .bool c.sourceMaps)]

/-- The configuration as it is written to its file. -/
def text (c : ProjectConfig) : String :=
  (Json.obj c.fields).pretty

/-- A configuration from the fields of a record. What is left out has its usual value. -/
def ofFields? (fields : List (String × Json)) : Option ProjectConfig := do
  let d : ProjectConfig := {}
  let srcDir ← Json.withDefault? Json.str? d.srcDir "srcDir" fields
  let extensions ← Json.withDefault? Json.strings? d.extensions "extensions" fields
  let vendorDirs ← Json.withDefault? Json.strings? d.vendorDirs "vendorDirs" fields
  let exclude ← Json.withDefault? Json.strings? d.exclude "exclude" fields
  let outDir ← Json.nullable? Json.str? "outDir" fields
  let sourceMaps ← Json.withDefault? Json.bool? d.sourceMaps "sourceMaps" fields
  return { srcDir, extensions, vendorDirs, exclude, outDir, sourceMaps }

/-- The configuration in a text. -/
def ofText? (s : String) : Option ProjectConfig := do
  let j ← Json.parseRecord? fieldNames s
  let fields ← Json.record? fieldNames 0 j
  ofFields? fields

/-- The configuration of the project in a directory. Without a file every value is the usual one. -/
def load (t : Files.Tree) (dir : String) : Except ConfigFault ProjectConfig :=
  let path := Text.Path.join dir fileName
  if t.pathExists path then
    match t.readText path with
    | .error e => .error (.unreadable path e)
    | .ok s =>
      match ofText? s with
      | some c => .ok c
      | none => .error (.malformed path)
  else .ok {}

/-- The path of the sources. -/
def srcPath (c : ProjectConfig) (dir : String) : String :=
  Text.Path.join dir c.srcDir

/-- The path of the output directory. -/
def outPath (c : ProjectConfig) (dir : String) : String :=
  Text.Path.join dir (c.outDir.getD "dist")

/-- Reads a pattern, or says which one is bad. -/
def readPattern (pattern : String) : Except ConfigFault Text.Glob :=
  match Text.Glob.parse pattern with
  | .ok g => .ok g
  | .error fault => .error (.badPattern pattern fault)

/-- The patterns of files to leave alone. -/
def patterns (c : ProjectConfig) : Except ConfigFault (List Text.Glob) :=
  c.exclude.mapM readPattern

/-- How the files of the project are tagged. -/
def taggingOptions (c : ProjectConfig) (mode : Tagging.BuildMode) : Tagging.Options :=
  { mode, extensions := c.extensions, vendorDirs := c.vendorDirs, sourceMaps := c.sourceMaps }

end ProjectConfig

end InPlace

import InPlace.Project.Arguments
import InPlace.Project.Transcript

/-!
# Setting up a project

Writes a configuration, and makes the directory of the sources if there is none.
-/

namespace InPlace

namespace InitArguments

/-- The configuration that is written. -/
def config (args : InitArguments) : ProjectConfig :=
  { srcDir := args.srcDir, outDir := some args.outDir, sourceMaps := args.sourceMaps }

/-- What to do next, as it is printed. -/
def nextSteps (args : InitArguments) : List String :=
  ["", "✅ Live edit initialized!", "", "Next steps:", "  1. Run: liveedit tag",
    "  2. Serve the tagged files from " ++ args.outDir ++ "/",
    "  3. Load the agent in the page and open it from the editor"]

/-- Makes the directory of the sources, if there is none. -/
def makeSources (args : InitArguments) (dir : String) (j : Job) : Job × Option Files.OsError :=
  let path := Text.Path.join dir args.srcDir
  if j.files.pathExists path then (j, none)
  else
    match j.files.makeAll (Text.Path.ancestorsOf path) with
    | (files, none) => ({ j with files }.say ("  ✓ Created " ++ args.srcDir ++ "/"), none)
    | (files, some e) => ({ j with files }, some e)

/-- Writes the configuration and says what comes next. -/
def writeConfig (args : InitArguments) (dir : String) (j : Job) : Done :=
  match j.files.writeText (Text.Path.join dir ProjectConfig.fileName) args.config.text with
  | .error e => (j, some (.os e))
  | .ok files =>
    let j := { j with files }.say ("  ✓ Created " ++ ProjectConfig.fileName)
    (args.nextSteps.foldl Job.say j, none)

/-- Sets up the project in a directory. A configuration that is there is kept, unless it is to be written
anew. -/
def run (args : InitArguments) (dir : String) (files : Files.Tree) : Done :=
  let j : Job := { files }
  if files.pathExists (Text.Path.join dir ProjectConfig.fileName) && !args.force then
    ((j.say ("⚠️ " ++ ProjectConfig.fileName ++ " already exists")).say "Use --force to overwrite", none)
  else
    let j := j.say "📝 Initializing live edit..."
    match args.makeSources dir j with
    | (j, some e) => (j, some (.os e))
    | (j, none) => args.writeConfig dir j

end InitArguments

end InPlace

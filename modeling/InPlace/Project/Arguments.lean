import InPlace.Tagging.Options

/-!
# Command-line arguments

The program has two commands with options of their own. An option is given by its long name or by a letter;
letters can be joined, and a value can follow at once, after an equals sign, or as the next argument. After
`--` nothing is an option. Each option is given at most once.
-/

namespace InPlace

/-- Why arguments do not lead to a command. Two of the reasons are requests. -/
inductive UsageFault where
  | helpWanted
  | versionWanted
  | nothingGiven
  | unknownCommand
  | unknownArgument
  /-- A value is missing or not among the values of its option. -/
  | badValue
  /-- An option without a value was given one. -/
  | needlessValue
  | givenTwice
  deriving DecidableEq, Repr

/-- The number with which the program ends: a request is no failure. -/
def UsageFault.exitCode : UsageFault → Nat
  | helpWanted | versionWanted => 0
  | _ => 2

/-- An option of a command. -/
structure OptionSpec where
  name : String
  letter : Option Char := none
  takesValue : Bool := false
  /-- The values it may have; any where there is none. -/
  choices : List String := []
  deriving DecidableEq, Repr, Inhabited

/-- The options of a command and the number of its other arguments. -/
structure CommandSpec where
  options : List OptionSpec
  places : Nat := 0

/-- What has been given: options with their values, and other arguments. -/
structure Given where
  options : List (String × String) := []
  others : List String := []
  deriving DecidableEq, Repr, Inhabited

namespace Given

/-- The value that was given for an option. -/
def value? (g : Given) (name : String) : Option String :=
  (g.options.find? fun o => o.1 == name).map Prod.snd

/-- Whether an option was given. -/
def has (g : Given) (name : String) : Bool :=
  (g.value? name).isSome

/-- Takes an option with its value. -/
def take (g : Given) (o : OptionSpec) (value : String) : Except UsageFault Given :=
  if g.has o.name then .error .givenTwice
  else if !o.choices.isEmpty && !o.choices.contains value then .error .badValue
  else .ok { g with options := g.options ++ [(o.name, value)] }

end Given

/-- An option whose value has not been taken yet, with the value if it has been read. -/
structure Waiting where
  option : OptionSpec
  value : Option String := none
  deriving Inhabited

/-- How far reading has come. -/
structure ArgumentState where
  given : Given := {}
  waiting : Option Waiting := none
  /-- Whether `--` has been read. -/
  rest : Bool := false
  deriving Inhabited

namespace ArgumentState

/-- Takes the option that is waiting. -/
def settle (s : ArgumentState) : Except UsageFault ArgumentState :=
  match s.waiting with
  | none => .ok s
  | some ⟨_, none⟩ => .error .badValue
  | some ⟨o, some v⟩ =>
    match s.given.take o v with
    | .ok given => .ok { s with given, waiting := none }
    | .error e => .error e

/-- Takes an option. -/
def take (s : ArgumentState) (o : OptionSpec) (value : String) : Except UsageFault ArgumentState :=
  match s.settle with
  | .error e => .error e
  | .ok s =>
    match s.given.take o value with
    | .ok given => .ok { s with given }
    | .error e => .error e

/-- Takes an option without a value. The options that ask for help or for the version end the reading. -/
def flag (s : ArgumentState) (o : OptionSpec) : Except UsageFault ArgumentState :=
  match s.settle with
  | .error e => .error e
  | .ok s =>
    if o.name = "help" then .error .helpWanted
    else if o.name = "version" then .error .versionWanted
    else s.take o ""

/-- Waits for the value of an option. -/
def await (s : ArgumentState) (o : OptionSpec) : Except UsageFault ArgumentState :=
  match s.settle with
  | .error e => .error e
  | .ok s => .ok { s with waiting := some ⟨o, none⟩ }

/-- An option given by its long name, perhaps with a value. -/
def long (spec : CommandSpec) (s : ArgumentState) (name : String) (value : Option String) :
    Except UsageFault ArgumentState :=
  match spec.options.find? fun o => o.name == name with
  | none => .error .unknownArgument
  | some o =>
    match o.takesValue, value with
    | true, some v => s.take o v
    | true, none => s.await o
    | false, some _ => .error .needlessValue
    | false, none => s.flag o

/-- Options given by letters. The rest behind one that takes a value is its value. -/
def letters (spec : CommandSpec) (s : ArgumentState) : List Char → Except UsageFault ArgumentState
  | [] => .ok s
  | c :: cs =>
    match spec.options.find? fun o => o.letter == some c with
    | none => .error .unknownArgument
    | some o =>
      if o.takesValue then
        match cs with
        | [] => s.await o
        | '=' :: v => s.take o (String.ofList v)
        | v => s.take o (String.ofList v)
      else
        match s.flag o with
        | .error e => .error e
        | .ok s => letters spec s cs

/-- An argument that is no option: the value that is waited for, or one of the other arguments. -/
def other (spec : CommandSpec) (s : ArgumentState) (arg : String) : Except UsageFault ArgumentState :=
  match s.waiting, s.rest with
  -- the value is checked only when the option is taken
  | some ⟨o, none⟩, false => .ok { s with waiting := some ⟨o, some arg⟩ }
  | _, _ =>
    if s.given.others.length < spec.places then
      match s.settle with
      | .error e => .error e
      | .ok s => .ok { s with given := { s.given with others := s.given.others ++ [arg] } }
    else .error .unknownArgument

/-- Reads one argument. -/
def step (spec : CommandSpec) (s : ArgumentState) (arg : String) : Except UsageFault ArgumentState :=
  if s.rest then s.other spec arg
  else
    match arg.toList with
    | ['-', '-'] => .ok { s with rest := true }
    | '-' :: '-' :: cs =>
      let name := String.ofList (cs.takeWhile (· != '='))
      match cs.dropWhile (· != '=') with
      | [] => s.long spec name none
      | _ :: v => s.long spec name (some (String.ofList v))
    | '-' :: c :: cs => s.letters spec (c :: cs)
    | _ => s.other spec arg

end ArgumentState

/-- Reads the arguments of a command. -/
def CommandSpec.read (spec : CommandSpec) (args : List String) : Except UsageFault Given := do
  let s ← args.foldlM (ArgumentState.step spec) {}
  let s ← s.settle
  return s.given

/-! ## The commands -/

/-- What is said about the program on request. -/
def versionText : String := "liveedit 0.1.0"

/-- What `init` is asked for. -/
structure InitArguments where
  srcDir : String := "src"
  outDir : String := "dist"
  sourceMaps : Bool := false
  /-- Whether a configuration that is there is written anew. -/
  force : Bool := false
  deriving DecidableEq, Repr, Inhabited

/-- What `tag` is asked for. -/
structure TagArguments where
  /-- File or directory to tag, in place of the configured one. -/
  path : Option String := none
  mode : Tagging.BuildMode := .development
  /-- Whether the result is printed and not written. -/
  stdout : Bool := false
  /-- Directory of the tagged files, in place of the configured one. -/
  outDir : Option String := none
  sourceMaps : Bool := false
  deriving DecidableEq, Repr

/-- What the program is asked for. -/
inductive Invocation where
  | init (args : InitArguments)
  | tag (args : TagArguments)
  deriving DecidableEq, Repr

namespace Invocation

/-- The option that asks for help. -/
def helpOption : OptionSpec :=
  { name := "help", letter := some 'h' }

/-- The options in front of the command. -/
def programSpec : CommandSpec :=
  { options := [helpOption, { name := "version", letter := some 'V' }] }

/-- The options of the command that begins a project. -/
def initSpec : CommandSpec :=
  { options := [helpOption, { name := "src-dir", letter := some 's', takesValue := true },
      { name := "out-dir", letter := some 'o', takesValue := true }, { name := "source-maps" },
      { name := "force", letter := some 'f' }] }

/-- The options of the command that tags a project. -/
def tagSpec : CommandSpec :=
  { options := [helpOption,
      { name := "mode", letter := some 'm', takesValue := true,
        choices := ["development", "production"] },
      { name := "stdout" }, { name := "out-dir", letter := some 'o', takesValue := true },
      { name := "source-maps" }]
    places := 1 }

/-- The arguments of the command that begins a project. -/
def ofInit (g : Given) : InitArguments where
  srcDir := (g.value? "src-dir").getD "src"
  outDir := (g.value? "out-dir").getD "dist"
  sourceMaps := g.has "source-maps"
  force := g.has "force"

/-- The arguments of the command that tags a project. -/
def ofTag (g : Given) : TagArguments where
  path := g.others.head?
  mode := if g.value? "mode" = some "production" then .production else .development
  stdout := g.has "stdout"
  outDir := g.value? "out-dir"
  sourceMaps := g.has "source-maps"

/-- The request for help about one of the commands. -/
def help : List String → UsageFault
  | [] => .helpWanted
  | [name] => if ["init", "tag", "help"].contains name then .helpWanted else .unknownCommand
  | _ => .unknownCommand

/-- What is wrong with an argument where a command has to stand. Behind `--` there are no commands. -/
def noCommand (rest : Bool) (arg : String) : UsageFault :=
  if rest && ["init", "tag", "help"].contains arg then .unknownArgument else .unknownCommand

/-- Reads the arguments of the program after those in front of the command. -/
def readFrom (s : ArgumentState) : List String → Except UsageFault Invocation
  | [] => .error .nothingGiven
  | arg :: args =>
    if !s.rest && arg == "init" then (initSpec.read args).map fun g => .init (ofInit g)
    else if !s.rest && arg == "tag" then (tagSpec.read args).map fun g => .tag (ofTag g)
    else if !s.rest && arg == "help" then .error (help args)
    else
      match s.step programSpec arg with
      | .ok s => readFrom s args
      | .error .unknownArgument =>
        if s.rest || arg.toList.head? != some '-' || arg == "-" then .error (noCommand s.rest arg)
        else .error .unknownArgument
      | .error e => .error e

/-- What the arguments of the program ask for. -/
def ofArguments (args : List String) : Except UsageFault Invocation :=
  readFrom {} args

end Invocation

end InPlace

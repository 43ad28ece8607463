import InPlace.Text.Path
import InPlace.Text.Split

/-!
# Options of the tagger

Which files are tagged, and which elements never are.
-/

namespace InPlace.Tagging

/-- What a build is for. Only development builds are tagged. -/
inductive BuildMode where
  | development
  | production
  deriving DecidableEq, Repr

namespace BuildMode

/-- The mode that the environment asks for: anything but `development` is production. -/
def ofEnvironment (value : Option String) : BuildMode :=
  if value = some "development" then development else production

end BuildMode

/-- Elements that structure a document or describe it, and so are never content to select. -/
def defaultExcluded : List String :=
  ["Fragment", "React.Fragment", "Html", "Head", "body", "Main", "NextScript", "html", "head", "title",
    "meta", "link", "script", "style", "base", "noscript"]

/-- What is tagged and how. -/
structure Options where
  mode : BuildMode := .development
  /-- Extensions of files with markup, without the dot. -/
  extensions : List String := ["js", "jsx", "ts", "tsx"]
  /-- Names of directories whose contents belong to others. -/
  vendorDirs : List String := ["node_modules"]
  /-- Names of elements that receive no identity. -/
  excluded : List String := defaultExcluded
  /-- Whether a source map is made as well. -/
  sourceMaps : Bool := false
  deriving DecidableEq, Repr

namespace Options

/-- Whether elements with a name receive no identity. -/
def isExcluded (o : Options) (elementName : String) : Bool :=
  o.excluded.contains elementName

/-- The excluded names in the order of code points, each once. -/
def excludedSorted (o : Options) : List String :=
  (o.excluded.mergeSort fun a b => !(b < a)).foldr (fun name names =>
    if names.head? = some name then names else name :: names) []

/-- The parts of a path between slashes of either kind. -/
def parts (path : String) : List String :=
  (Text.splitWith (fun c => c == '/' || c == '\\') path.toList).map String.ofList

/-- Whether a part of the path names a vendor directory. -/
def isVendored (o : Options) (path : String) : Bool :=
  (parts path).any o.vendorDirs.contains

/-- Whether a file is tagged at all. -/
def appliesTo (o : Options) (path : String) : Bool :=
  decide (o.mode = .development)
    && ((Text.Path.extension? path).any fun e => o.extensions.contains e)
    && !o.isVendored path

end Options

end InPlace.Tagging

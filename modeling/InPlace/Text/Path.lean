/-!
# Paths

Paths as texts with slashes. A path is read as a list of components: repeated slashes, slashes at the end
and single dots between components do not count.
-/

namespace InPlace.Text

/-- A component of a path. -/
inductive Component where
  | root
  /-- A single dot at the beginning. -/
  | here
  | parent
  | normal (name : List Char)
  deriving DecidableEq, Repr

namespace Path

/-- The name before the first slash and what follows it. -/
def splitSlash (cs : List Char) : List Char × List Char :=
  (cs.takeWhile (· != '/'), (cs.dropWhile (· != '/')).drop 1)

/-- What follows the first slash is shorter. -/
theorem length_splitSlash_lt {c : Char} {cs : List Char} :
    (splitSlash (c :: cs)).2.length < (c :: cs).length := by
  have h : ((c :: cs).dropWhile (· != '/')).length ≤ (c :: cs).length :=
    (List.dropWhile_sublist _).length_le
  simp only [splitSlash, List.length_drop, List.length_cons] at h ⊢
  omega

/-- The components of a path behind its beginning, each with the text that follows it. -/
def body : List Char → List (Component × List Char)
  | [] => []
  | c :: cs =>
    let rest := (splitSlash (c :: cs)).2
    match (splitSlash (c :: cs)).1 with
    | [] => body rest
    | ['.'] => body rest
    | ['.', '.'] => (.parent, rest) :: body rest
    | name => (.normal name, rest) :: body rest
  termination_by cs => cs.length
  decreasing_by all_goals exact length_splitSlash_lt

/-- The components of a path, each with the text that follows it. -/
def steps : List Char → List (Component × List Char)
  | '/' :: cs => (.root, cs) :: body cs
  | ['.'] => [(.here, [])]
  | '.' :: '/' :: cs => (.here, '/' :: cs) :: body cs
  | cs => body cs

/-- The components of a path. -/
def components (p : String) : List Component :=
  (steps p.toList).map Prod.fst

/-- The text without slashes and single dots in front. -/
def trimFront : List Char → List Char
  | [] => []
  | c :: cs =>
    match (splitSlash (c :: cs)).1 with
    | [] => trimFront (splitSlash (c :: cs)).2
    | ['.'] => trimFront (splitSlash (c :: cs)).2
    | _ => c :: cs
  termination_by cs => cs.length
  decreasing_by all_goals exact length_splitSlash_lt

/-- The text without slashes and single dots at the end. -/
def trimBack (cs : List Char) : List Char :=
  let rec go : List Char → List Char
    | '/' :: r => go r
    | '.' :: '/' :: r => go r
    | ['.'] => []
    | r => r
  (go cs.reverse).reverse

/-- The text of a path up to which nothing is cut off at its end: a slash or single dot in front. -/
def kept : List Char → List Char × List Char
  | '/' :: cs => (['/'], cs)
  | ['.'] => (['.'], [])
  | '.' :: '/' :: cs => (['.'], '/' :: cs)
  | cs => ([], cs)

/-- The path as written, without slashes and single dots at its end. -/
def trimEnd (cs : List Char) : List Char :=
  let (front, rest) := kept cs
  front ++ trimBack rest

/-- What is left of the components of a path after those of a base, as written. The text `whole` is what
is left if the base has no more components. -/
def stripFrom (whole : List Char) : List (Component × List Char) → List Component → Option (List Char)
  | _, [] => some whole
  -- slashes and dots on either side of what is left do not count
  | (c, rest) :: cs, d :: ds => if c = d then stripFrom (trimBack (trimFront rest)) cs ds else none
  | [], _ :: _ => none

/-- The part of a path behind a base, if the base is a prefix of it, component by component. -/
def stripBase? (path base : String) : Option String :=
  (stripFrom (trimEnd path.toList) (steps path.toList) (components base)).map String.ofList

/-- Whether a path begins at the root. -/
def isAbsolute (path : String) : Bool :=
  path.toList.head? == some '/'

/-- Whether a slash ends a path. -/
def endsInSlash (path : String) : Bool :=
  path.toList.getLast? == some '/'

/-- A path behind another one. An absolute path stands for itself. -/
def join (base path : String) : String :=
  if isAbsolute path then path
  else if base.isEmpty || endsInSlash base then base ++ path
  else base ++ "/" ++ path

/-- The text of a component. -/
def Component.text : Component → String
  | .root => ""
  | .here => "."
  | .parent => ".."
  | .normal name => String.ofList name

/-- The texts of the components of a path. -/
def names (p : String) : List String :=
  (components p).map Component.text

/-- The path without its last component; none for the root and for the empty path. -/
def parent? (p : String) : Option String :=
  match components p with
  | [] => none
  | [.root] => none
  | [.root, _] => some "/"
  | cs => some ("/".intercalate (cs.dropLast.map Component.text))

/-- The path and the paths above it, the longest first. -/
def ancestorsOf (p : String) : List String :=
  let rec go : Nat → String → List String
    | 0, _ => []
    | n + 1, p =>
      match parent? p with
      | some above => p :: go n above
      | none => [p]
  go (components p).length p

/-- The order of paths: component by component, and within a component by code points. -/
def precedes : List String → List String → Bool
  | [], _ => true
  | _ :: _, [] => false
  | a :: as, b :: bs => if a = b then precedes as bs else a < b

/-- What follows the last dot of the last component, unless that dot is its first character. -/
def extension? (p : String) : Option String :=
  match (components p).getLast? with
  | some (.normal name) =>
    match name.reverse.dropWhile (· != '.') with
    | _ :: _ :: _ => some (String.ofList (name.reverse.takeWhile (· != '.')).reverse)
    | _ => none
  | _ => none

/-- The path relative to a root, with forward slashes and none in front. A path outside the root is kept
as written. -/
def relativeTo (root path : String) : String :=
  let relative := (stripBase? path root).getD path
  let slashes := relative.toList.map fun c => if c == '\\' then '/' else c
  String.ofList (slashes.dropWhile (· == '/'))

end Path

end InPlace.Text

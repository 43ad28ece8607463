import InPlace.Identity
import InPlace.Text.Blank
import InPlace.Tagging.Options
import InPlace.Tagging.SourceMap
import InPlace.Tsx.Grammar

/-!
# The tagger

Writes into every element tag of a source where it stands: the identity of the place and the name of the
element become attributes right behind the tag's name, or behind its type arguments. Tags of excluded
elements and tags that carry an identity already stay as they are, and so does a file that cannot be
parsed.

The insertions are a function of the source and its tree alone (`editsOf`); `tagTree` makes them, and
`tag` parses the source first.
-/

namespace InPlace.Tagging

open Tsx (Node NodeKind)

/-- Why a single element could not be tagged. -/
inductive ElementError where
  | invalidLocation (offset : Nat)
  | invalidName (offset : Nat)
  deriving DecidableEq, Repr

/-- What became of a file. -/
inductive Status where
  | tagged
  /-- The options leave the file out. -/
  | notApplicable
  /-- The file is given back as it was. -/
  | passedThrough
  deriving DecidableEq, Repr

/-- The result for one file. -/
structure Report where
  code : String
  status : Status
  inserted : Nat
  failed : Nat
  map : Option SourceMap
  deriving Repr

namespace Report

/-- The report on a source that stays as it is. -/
def unchanged (source : String) (status : Status) : Report :=
  ⟨source, status, 0, 0, none⟩

/-- Whether anything was inserted. -/
def changed (r : Report) : Bool :=
  r.inserted > 0

end Report

/-! ## Attributes -/

/-- The entity of a character that must not stand in a quoted attribute. -/
def escapeChar (c : Char) : List Char :=
  match c with
  | '&' => "&amp;".toList
  | '<' => "&lt;".toList
  | '>' => "&gt;".toList
  | '"' => "&quot;".toList
  | c => [c]

/-- A text as it stands in the value of an attribute. -/
def escapeAttribute (s : String) : String :=
  String.ofList (s.toList.flatMap escapeChar)

/-- The text that is inserted into a tag. -/
def tagText (identity name : String) : String :=
  " " ++ identityAttribute ++ "=\"" ++ escapeAttribute identity ++ "\" " ++ nameAttribute ++ "=\""
    ++ escapeAttribute name ++ "\""

/-! ## Elements -/

/-- Whether a node is a tag that can receive an identity. -/
def isTag (n : Node) : Bool :=
  n.kind == .openingElement || n.kind == .selfClosingElement

/-- The source text of a node. -/
def textOf (source : List Char) (n : Node) : Except ElementError (List Char) :=
  match Text.slice? source n.span.start n.span.stop with
  | some cs => .ok cs
  | none => .error (.invalidName n.span.start)

/-- The name of an element, as far as the node is one. -/
def elementName (source : List Char) (n : Node) : Except ElementError (Option String) :=
  match n.kind with
  | .identifier | .jsxIdentifier => do
    return some (String.ofList (← textOf source n))
  | .memberExpression | .nestedIdentifier | .namespaceName => do
    return some (Text.removeBlanks (String.ofList (← textOf source n)))
  | _ => .ok none

/-- Whether an attribute is the one for identities. -/
def isIdentity (source : List Char) (n : Node) : Except ElementError Bool := do
  if n.kind == .tagAttribute then
    let text ← textOf source n
    return Text.trim (String.ofList (text.takeWhile (· != '='))) == identityAttribute
  else
    return false

/-- Whether one of the nodes is an attribute for identities. -/
def anyIdentity (source : List Char) : List Node → Except ElementError Bool
  | [] => .ok false
  | n :: ns => do
    if ← isIdentity source n then return true else anyIdentity source ns

/-- The type arguments of a tag. -/
def typeArguments? (n : Node) : Option Node :=
  (n.childWith .typeArguments).or (n.children.find? fun c => c.kind == .typeArguments)

/-- A number of 32 bits. -/
def word32? (n : Nat) : Option UInt32 :=
  if n < UInt32.size then some (UInt32.ofNat n) else none

/-- The identity of the place at which a node begins. -/
def identityOf (source : List Char) (path : String) (n : Node) : Except ElementError String :=
  let at? := do
    let p ← Text.position? source n.span.start
    let line ← word32? (p.line + 1)
    let column ← word32? p.column
    some (Identity.encode path line column)
  match at? with
  | some identity => .ok identity
  | none => .error (.invalidLocation n.span.start)

/-- The insertion for a tag; none for a tag without a name, of an excluded element, or with an identity
of its own. -/
def insertionFor (o : Options) (source : List Char) (path : String) (n : Node) :
    Except ElementError (Option Insertion) := do
  let some nameNode := n.childWith .name | return none
  let some name ← elementName source nameNode | return none
  if o.isExcluded name then return none
  if ← anyIdentity source n.children then return none
  -- only now: a tag that stays as it is never fails for its place
  let identity ← identityOf source path n
  let last := (typeArguments? n).getD nameNode
  return some ⟨last.span.stop, tagText identity name⟩

/-- Records the insertion for one node and counts it if it fails. -/
def recordTag (o : Options) (source : List Char) (path : String) (done : EditList × Nat) (n : Node) :
    EditList × Nat :=
  if isTag n then
    match insertionFor o source path n with
    | .ok (some i) => (done.1.insert i.offset i.text, done.2)
    | .ok none => done
    | .error _ => (done.1, done.2 + 1)
  else done

/-- The insertions for all tags of a tree, and the number of tags that failed. -/
def editsOf (o : Options) (source path : String) (tree : Node) : EditList × Nat :=
  tree.preorder.foldl (recordTag o source.toList path) (.empty, 0)

/-! ## Files -/

/-- Tags a source whose tree is known. -/
def tagTree (o : Options) (source path : String) (tree : Node) : Report :=
  let (edits, failed) := editsOf o source path tree
  match edits.apply source with
  | .ok code =>
    ⟨code, .tagged, edits.size, failed,
      if o.sourceMaps then some (.ofEdits path source edits) else none⟩
  | .error _ => .unchanged source .passedThrough

/-- Tags a source, given how sources are parsed. -/
def tagWith (parse : String → Option Node) (o : Options) (source path : String) : Report :=
  if o.appliesTo path then
    match parse source with
    | some tree => tagTree o source path tree
    | none => .unchanged source .passedThrough
  else .unchanged source .notApplicable

/-- Tags a TSX source. -/
def tag (o : Options) (source path : String) : Report :=
  tagWith Tsx.parse o source path

end InPlace.Tagging

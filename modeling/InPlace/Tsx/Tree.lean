/-!
# Syntax trees of TSX sources

A tree records where the parts of a source stand that matter to an element tag: its name, its type
arguments and its attributes. Every other construct is present through the tags written inside it.

Trees are built from a list of events, the openings and closings of nodes in source order
(`Node.ofEvents`). Main definition besides: `Node.preorder`, the nodes of a tree, parents first.
-/

namespace InPlace.Tsx

/-- What a node stands for. -/
inductive NodeKind
  | program
  /-- `<name attributes>` -/
  | openingElement
  /-- `<name attributes/>` -/
  | selfClosingElement
  | identifier
  /-- A name with a hyphen. -/
  | jsxIdentifier
  /-- `Object.Member` as a tag name. -/
  | memberExpression
  | nestedIdentifier
  /-- `namespace:name` -/
  | namespaceName
  | typeArguments
  | tagAttribute
  | other
  deriving DecidableEq, Repr, Inhabited

/-- The part a node plays in its parent. -/
inductive Role
  | name
  | typeArguments
  deriving DecidableEq, Repr

/-- A range of bytes of the source, the end excluded. -/
structure Span where
  start : Nat
  stop : Nat
  deriving DecidableEq, Repr, Inhabited

/-- A syntax tree. -/
inductive Node
  | mk (kind : NodeKind) (role : Option Role) (span : Span) (children : List Node)
  deriving Inhabited

namespace Node

/-- What kind of node it is. -/
def kind : Node → NodeKind
  | mk k _ _ _ => k

/-- What part a node has in the one around it. -/
def role : Node → Option Role
  | mk _ r _ _ => r

/-- Where a node begins and ends. -/
def span : Node → Span
  | mk _ _ s _ => s

/-- The nodes in a node, from the first to the last. -/
def children : Node → List Node
  | mk _ _ _ cs => cs

mutual

/-- The nodes of a tree, each before its children, the children in order. -/
def preorder : Node → List Node
  | mk k r s cs => mk k r s cs :: preorderList cs

/-- The nodes of a list of trees, tree after tree. -/
def preorderList : List Node → List Node
  | [] => []
  | n :: ns => n.preorder ++ preorderList ns

end

/-- The child that plays the part `r`. -/
def childWith (n : Node) (r : Role) : Option Node :=
  n.children.find? fun c => c.role == some r

end Node

/-- A node begins, or the innermost open node ends. -/
inductive Event
  | start (offset : Nat)
  | finish (kind : NodeKind) (role : Option Role) (offset : Nat)
  deriving Repr

/-- The nodes read so far at one level, last first, and the levels around it, each with the offset at
which the inner node began. -/
structure Building where
  done : List Node
  outer : List (Nat × List Node)

namespace Building

/-- A node begins, or ends with what has been built in it. -/
def step (b : Building) : Event → Building
  | .start o => ⟨[], (o, b.done) :: b.outer⟩
  | .finish k r o =>
    match b.outer with
    | [] => b
    | (start, siblings) :: outer => ⟨.mk k r ⟨start, o⟩ b.done.reverse :: siblings, outer⟩

end Building

/-- The trees that a list of events describes, in source order. -/
def Node.ofEvents (es : List Event) : List Node :=
  (es.foldl Building.step ⟨[], []⟩).done.reverse

end InPlace.Tsx

/-!
# Forests

Nodes with a parent and a list of children, numbered in the order in which they were made. A node without a
parent is the top of a tree of its own. A walk passes at most as many nodes as there are.

Main statements: `cell?_modify` and `cell?_push` (a change of one node leaves the others alone).
-/

namespace InPlace

/-- The number of a node in the order in which nodes were made. -/
abbrev NodeId := Nat

/-- A node: what it is, and its place. -/
structure Cell (α : Type) where
  content : α
  parent : Option NodeId := none
  children : List NodeId := []
  deriving Repr, Inhabited

/-- Nodes with their places. -/
structure Forest (α : Type) where
  cells : Array (Cell α) := #[]
  deriving Repr, Inhabited

namespace Forest

variable {α : Type}

/-! ## Nodes -/

/-- The number of the next node. -/
def fresh (f : Forest α) : NodeId :=
  f.cells.size

/-- The cell of a node. -/
def cell? (f : Forest α) (n : NodeId) : Option (Cell α) :=
  f.cells[n]?

/-- What a node holds. -/
def content? (f : Forest α) (n : NodeId) : Option α :=
  (f.cell? n).map Cell.content

/-- The parent of a node. -/
def parent? (f : Forest α) (n : NodeId) : Option NodeId :=
  (f.cell? n).bind Cell.parent

/-- The children of a node, from the first to the last. -/
def children (f : Forest α) (n : NodeId) : List NodeId :=
  ((f.cell? n).map Cell.children).getD []

/-- Changes the cell of a node, if there is one. -/
def modify (f : Forest α) (n : NodeId) (g : Cell α → Cell α) : Forest α :=
  ⟨f.cells.modify n g⟩

/-- A change of one node leaves the others alone. -/
theorem cell?_modify (f : Forest α) (n m : NodeId) (g : Cell α → Cell α) :
    (f.modify n g).cell? m = if n = m then (f.cell? m).map g else f.cell? m := by
  simp only [cell?, modify, Array.getElem?_modify]

/-- Changes what a node is. -/
def modifyContent (f : Forest α) (n : NodeId) (g : α → α) : Forest α :=
  f.modify n fun c => { c with content := g c.content }

/-- Adds a node that is a tree of its own. -/
def push (f : Forest α) (content : α) : Forest α :=
  ⟨f.cells.push { content }⟩

/-- A new node leaves the others alone. -/
theorem cell?_push (f : Forest α) (content : α) (m : NodeId) :
    (f.push content).cell? m = if m = f.fresh then some { content } else f.cell? m := by
  exact Array.getElem?_push

/-! ## Walks -/

/-- The node and its ancestors, at most `k` of them. -/
def ancestorsWithin (f : Forest α) : Nat → NodeId → List NodeId
  | 0, _ => []
  | k + 1, n =>
    match f.parent? n with
    | some p => n :: ancestorsWithin f k p
    | none => [n]

/-- The node and its ancestors, from the inside to the outside. -/
def ancestors (f : Forest α) (n : NodeId) : List NodeId :=
  f.ancestorsWithin f.cells.size n

/-- Whether a node is `outer` or inside of it. -/
def isWithin (f : Forest α) (outer n : NodeId) : Bool :=
  (f.ancestors n).contains outer

/-- The node and what is below it, down to the depth `k`. Only nodes of the kind `inner` are looked into. -/
def preorderWithin (f : Forest α) (inner : α → Bool) : Nat → NodeId → List NodeId
  | 0, _ => []
  | k + 1, n =>
    if (f.content? n).any inner then n :: (f.children n).flatMap (preorderWithin f inner k) else [n]

/-- The node and what is below it, each node in front of its children. Only nodes of the kind `inner` are
looked into. -/
def preorder (f : Forest α) (inner : α → Bool) (n : NodeId) : List NodeId :=
  f.preorderWithin inner f.cells.size n

/-! ## Changes of place -/

/-- Takes a node out of its parent's list. -/
def detach (f : Forest α) (n : NodeId) : Forest α :=
  match f.parent? n with
  | none => f
  | some p =>
    (f.modify p fun c => { c with children := c.children.filter (· != n) }).modify n
      fun c => { c with parent := none }

/-- Puts a node at the end of a parent's list, and out of the list it was in. -/
def append (f : Forest α) (parent child : NodeId) : Forest α :=
  ((f.detach child).modify child fun c => { c with parent := some parent }).modify parent
    fun c => { c with children := c.children ++ [child] }

/-- Adds a node at the end of a parent's list. -/
def pushUnder (f : Forest α) (parent : NodeId) (content : α) : Forest α :=
  (f.push content).append parent f.fresh

/-- Takes all children out of a node's list. -/
def clear (f : Forest α) (n : NodeId) : Forest α :=
  ((f.children n).foldl (fun f c => f.modify c fun cell => { cell with parent := none }) f).modify n
    fun cell => { cell with children := [] }

end Forest

end InPlace

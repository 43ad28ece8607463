import InPlace.Tsx.Tree

/-!
# Walking a tree with a cursor

A cursor stands on a node of a tree and moves to its first child, to its next sibling or to its parent. One loop over
these moves visits the whole tree: down to the first child where there is one, and otherwise up as far as it takes to
find a sibling.

Main statement: `visit_top` (the loop visits the nodes in preorder, each once, and ends).
-/

namespace InPlace.Tsx

theorem Node.preorder_eq (n : Node) : n.preorder = n :: preorderList n.children := by
  cases n
  rfl

/-- A node of a tree, and the nodes above it, each with the children that come after the one on the way. -/
structure TreeCursor where
  node : Node
  above : List (Node × List Node)

namespace TreeCursor

/-- A cursor at the top of a tree. -/
def top (tree : Node) : TreeCursor :=
  ⟨tree, []⟩

/-- The cursor at the first child. -/
def firstChild? (c : TreeCursor) : Option TreeCursor :=
  match c.node.children with
  | [] => none
  | n :: ns => some ⟨n, (c.node, ns) :: c.above⟩

/-- The cursor at the next node with the same parent. -/
def nextSibling? (c : TreeCursor) : Option TreeCursor :=
  match c.above with
  | (parent, n :: ns) :: above => some ⟨n, (parent, ns) :: above⟩
  | _ => none

/-- The cursor at the parent. -/
def parent? (c : TreeCursor) : Option TreeCursor :=
  match c.above with
  | [] => none
  | (parent, _) :: above => some ⟨parent, above⟩

/-- There are fewer nodes above the parent. -/
theorem length_above_of_parent? {c p : TreeCursor} (h : c.parent? = some p) : p.above.length < c.above.length := by
  unfold parent? at h
  split at h
  · cases h
  · rename_i parent ns above habove
    cases h
    rw [habove]
    exact Nat.lt_succ_self _

/-- Moves to the next sibling of the node, or else of the nearest node above it that has one. -/
def leave? (c : TreeCursor) : Option TreeCursor :=
  match c.nextSibling? with
  | some next => some next
  | none =>
    match _up : c.parent? with
    | some parent => parent.leave?
    | none => none
  termination_by c.above.length
  decreasing_by exact length_above_of_parent? _up

/-- The nodes that come after the one of the cursor and what is below it. -/
def later (c : TreeCursor) : List Node :=
  c.above.flatMap fun level => Node.preorderList level.2

/-- The node of the cursor and all that come after it. -/
def remaining (c : TreeCursor) : List Node :=
  c.node.preorder ++ c.later

/-- A node comes first, then what is left from its first child on. -/
theorem remaining_of_firstChild? {c d : TreeCursor} (h : c.firstChild? = some d) : c.remaining = c.node :: d.remaining := by
  unfold firstChild? at h
  split at h
  · cases h
  · rename_i n ns children
    cases h
    rw [remaining, Node.preorder_eq, children, Node.preorderList, List.cons_append, List.append_assoc]
    rfl

/-- A node without children comes first, then what is later. -/
theorem remaining_of_no_child {c : TreeCursor} (h : c.firstChild? = none) : c.remaining = c.node :: c.later := by
  unfold firstChild? at h
  split at h
  · rename_i children
    rw [remaining, Node.preorder_eq, children]
    rfl
  · cases h

/-- Next comes what is left from the next sibling on. -/
theorem later_of_nextSibling? {c d : TreeCursor} (h : c.nextSibling? = some d) : c.later = d.remaining := by
  unfold nextSibling? at h
  split at h
  · rename_i parent n ns above habove
    cases h
    rw [later, habove, List.flatMap_cons, Node.preorderList, List.append_assoc]
    rfl
  · cases h

/-- Behind a last sibling comes what is behind the parent. -/
theorem later_of_parent? {c p : TreeCursor} (last : c.nextSibling? = none) (h : c.parent? = some p) :
    c.later = p.later := by
  unfold parent? at h
  split at h
  · cases h
  · rename_i parent ns above habove
    cases h
    unfold nextSibling? at last
    rw [habove] at last
    cases ns with
    | nil =>
      rw [later, habove]
      rfl
    | cons n ns => cases last

/-- Nothing is later than the top. -/
theorem later_of_no_parent {c : TreeCursor} (h : c.parent? = none) : c.later = [] := by
  unfold parent? at h
  split at h
  · rename_i habove
    rw [later, habove]
    rfl
  · cases h

/-- A subtree is left for what comes after it. -/
theorem later_eq (c : TreeCursor) : c.later = c.leave?.elim [] remaining := by
  fun_induction leave? c with
  | case1 c next sibling => exact later_of_nextSibling? sibling
  | case2 c last parent h ih => rw [later_of_parent? last h, ih]
  | case3 c last h => exact later_of_no_parent h

/-- With each step of the loop less is left. -/
theorem length_remaining_lt {c d : TreeCursor} (h : c.firstChild? = some d ∨ c.firstChild? = none ∧ c.leave? = some d) :
    d.remaining.length < c.remaining.length := by
  have next : c.remaining = c.node :: d.remaining := by
    rcases h with child | ⟨leaf, next⟩
    · exact remaining_of_firstChild? child
    · rw [remaining_of_no_child leaf, later_eq, next]
      rfl
  rw [next]
  exact Nat.lt_succ_self _

/-- Does something with each node from the one of the cursor on. -/
def visit {σ : Type} (f : σ → Node → σ) (s : σ) (c : TreeCursor) : σ :=
  match _child : c.firstChild? with
  | some inner => visit f (f s c.node) inner
  | none =>
    match _next : c.leave? with
    | some other => visit f (f s c.node) other
    | none => f s c.node
  termination_by c.remaining.length
  decreasing_by
    · exact length_remaining_lt (.inl _child)
    · exact length_remaining_lt (.inr ⟨_child, _next⟩)

/-- The loop visits what is left, one node after the other. -/
theorem visit_eq {σ : Type} (f : σ → Node → σ) (s : σ) (c : TreeCursor) : c.visit f s = c.remaining.foldl f s := by
  fun_induction visit f s c with
  | case1 s c inner child ih => rw [remaining_of_firstChild? child, List.foldl_cons, ih]
  | case2 s c leaf other next ih => rw [remaining_of_no_child leaf, later_eq, next, List.foldl_cons, ih]; rfl
  | case3 s c leaf last => rw [remaining_of_no_child leaf, later_eq, last]; rfl

/-- From the top of a tree on its nodes are visited in preorder. -/
theorem visit_top {σ : Type} (f : σ → Node → σ) (s : σ) (tree : Node) : (top tree).visit f s = tree.preorder.foldl f s := by
  rw [visit_eq, remaining, later, top, List.flatMap_nil, List.append_nil]

end TreeCursor

end InPlace.Tsx

import InPlace.Proofs.Headless.Edits

/-!
# Linked trees

A tree is linked if every node in a list of children has the owner of the list as its parent. Then whoever walks
down to a node can walk up again, so what is found below the body is connected to it. Each change of a tree keeps
it linked, if the nodes that it moves have been made.

Main statements: `Forest.Linked.append`, `PageEdit.apply_linked` and `Document.isConnected_of_mem_identified`.
-/

namespace InPlace

namespace Forest

variable {α : Type} {f g : Forest α}

/-! ## Places after a change -/

/-- A node that is detached has no parent; the others keep theirs. -/
theorem parent?_detach (f : Forest α) (n m : NodeId) :
    (f.detach n).parent? m = if m = n then none else f.parent? m := by
  unfold detach
  cases hp : f.parent? n with
  | none =>
    by_cases hm : m = n
    · rw [if_pos hm, hm]
      exact hp
    · rw [if_neg hm]
  | some p =>
    have shortened : ∀ m, (f.modify p fun c => { c with children := c.children.filter (· != n) }).parent? m =
        f.parent? m :=
      fun m => parent?_modify_of_parent f p m fun _ => rfl
    by_cases hm : m = n
    · subst hm
      rw [if_pos rfl, parent?, cell?_modify, if_pos rfl]
      generalize (f.modify p _).cell? m = cell
      cases cell <;> rfl
    · rw [if_neg hm, ← shortened m, parent?, cell?_modify, if_neg (Ne.symm hm)]
      rfl

theorem mem_children_detach {n p c : NodeId} (h : c ∈ (f.detach n).children p) :
    c ∈ f.children p ∧ (f.parent? n = some p → c ≠ n) := by
  unfold detach at h
  cases hp : f.parent? n with
  | none =>
    rw [hp] at h
    exact ⟨h, fun hn => by simp at hn⟩
  | some q =>
    have orphaned := children_modify_of_children
      (f.modify q fun c => { c with children := c.children.filter (· != n) }) n p
      (g := fun c => { c with parent := none }) fun _ => rfl
    rw [hp] at h
    dsimp only at h
    rw [orphaned, children, cell?_modify] at h
    by_cases hq : q = p
    · subst hq
      rw [if_pos rfl] at h
      cases hc : f.cell? q with
      | none =>
        rw [hc] at h
        simp at h
      | some cell =>
        rw [hc] at h
        obtain ⟨hin, hne⟩ := List.mem_filter.1 h
        refine ⟨?_, fun _ => by simpa using hne⟩
        rw [children, hc]
        exact hin
    · rw [if_neg hq] at h
      refine ⟨h, fun hn => ?_⟩
      cases hn
      exact absurd rfl hq

/-- The children after an append are those that there were, and the new one. -/
theorem mem_children_append {parent child p c : NodeId} (h : c ∈ (f.append parent child).children p) :
    c ∈ (f.detach child).children p ∨ (p = parent ∧ c = child) := by
  have named : ∀ p, ((f.detach child).modify child fun c => { c with parent := some parent }).children p =
      (f.detach child).children p :=
    fun p => children_modify_of_children _ child p fun _ => rfl
  rw [append, children, cell?_modify] at h
  by_cases hp : parent = p
  · subst hp
    rw [if_pos rfl] at h
    cases hc : ((f.detach child).modify child fun c => { c with parent := some parent }).cell? parent with
    | none =>
      rw [hc] at h
      simp at h
    | some cell =>
      rw [hc] at h
      rcases List.mem_append.1 h with hold | hnew
      · refine .inl ?_
        rw [← named, children, hc]
        exact hold
      · exact .inr ⟨rfl, List.mem_singleton.1 hnew⟩
  · rw [if_neg hp] at h
    rw [← named]
    exact .inl h

/-- A node that is appended has its new parent; the others keep theirs. -/
theorem parent?_append (f : Forest α) {parent child : NodeId} (h : (f.content? child).isSome) (m : NodeId) :
    (f.append parent child).parent? m = if m = child then some parent else f.parent? m := by
  have listed := parent?_modify_of_parent ((f.detach child).modify child fun c => { c with parent := some parent })
    parent m (g := fun c => { c with children := c.children ++ [child] }) fun _ => rfl
  rw [append, listed, Forest.parent?, cell?_modify]
  by_cases hm : m = child
  · subst hm
    rw [if_pos rfl, if_pos rfl]
    rw [← content?_detach f m m, content?] at h
    cases hc : (f.detach m).cell? m with
    | none =>
      rw [hc] at h
      simp at h
    | some cell => rfl
  · rw [if_neg (Ne.symm hm), if_neg hm]
    show (f.detach child).parent? m = _
    rw [parent?_detach, if_neg hm]

/-! ## What keeps a forest linked -/

/-- Every node in a list of children has the owner of the list as its parent. -/
def Linked (f : Forest α) : Prop :=
  ∀ p, ∀ c ∈ f.children p, f.parent? c = some p

/-- Children know their parents when a node is detached. -/
theorem Linked.detach (h : f.Linked) (n : NodeId) : (f.detach n).Linked := by
  intro p c hc
  obtain ⟨hin, hne⟩ := mem_children_detach hc
  have hp := h p c hin
  have other : c ≠ n := fun hcn => hne (hcn ▸ hp) hcn
  rw [parent?_detach, if_neg other]
  exact hp

/-- Children know their parents when a node is appended. -/
theorem Linked.append (h : f.Linked) {parent child : NodeId} (hc : (f.content? child).isSome) :
    (f.append parent child).Linked := by
  intro p c hin
  rw [parent?_append f hc]
  rcases mem_children_append hin with hold | ⟨rfl, rfl⟩
  · have hp := h.detach child p c hold
    rw [parent?_detach] at hp
    by_cases hcc : c = child
    · rw [if_pos hcc] at hp
      simp at hp
    · rw [if_neg hcc] at hp
      rw [if_neg hcc]
      exact hp
  · rw [if_pos rfl]

theorem Linked.push (h : f.Linked) (a : α) : (f.push a).Linked := by
  intro p c hc
  by_cases hp : p = f.fresh
  · rw [children, cell?_push, if_pos hp] at hc
    simp at hc
  · rw [children, cell?_push, if_neg hp] at hc
    have hparent := h p c hc
    rw [parent?, cell?_push, if_neg (Nat.ne_of_lt (lt_fresh_of_parent? hparent))]
    exact hparent

theorem Linked.pushUnder (h : f.Linked) (parent : NodeId) (a : α) : (f.pushUnder parent a).Linked := by
  refine (h.push a).append ?_
  rw [content?_push, if_pos rfl]
  rfl

/-- Children know their parents when those of one node are taken away. -/
theorem Linked.clear (h : f.Linked) (n : NodeId) : (f.clear n).Linked := by
  intro p c hc
  rw [children_clear] at hc
  by_cases hp : p = n
  · rw [if_pos hp] at hc
    simp at hc
  · rw [if_neg hp] at hc
    have hparent := h p c hc
    -- a child of the cleared node would have two parents
    have kept : c ∉ f.children n := by
      intro hcn
      rw [h n c hcn] at hparent
      cases hparent
      exact hp rfl
    rw [parent?_clear, if_neg kept]
    exact hparent

theorem Linked.of_eq (h : f.Linked) (hp : ∀ n, g.parent? n = f.parent? n)
    (hc : ∀ n, g.children n = f.children n) : g.Linked := by
  intro p c hin
  rw [hp]
  rw [hc] at hin
  exact h p c hin

/-! ## Walks up and down -/

theorem mem_ancestorsWithin_parent {k n m p : NodeId} (hn : n ∈ f.ancestorsWithin k m)
    (hp : f.parent? n = some p) : p ∈ f.ancestorsWithin (k + 1) m := by
  induction k generalizing m with
  | zero => cases hn
  | succ k ih =>
    cases hm : f.parent? m with
    | none =>
      rw [ancestorsWithin_of_free k hm, List.mem_singleton] at hn
      rw [hn, hm] at hp
      cases hp
    | some q =>
      rw [ancestorsWithin_of_parent? k hm, List.mem_cons] at hn
      rw [ancestorsWithin_of_parent? (k + 1) hm]
      refine List.mem_cons_of_mem _ ?_
      -- the node is where the walk starts, and then its parent comes next, or the walk meets it further up
      rcases hn with rfl | hn
      · rw [hm] at hp
        cases hp
        exact mem_ancestorsWithin_self f k p
      · exact ih hn

/-- Whoever walks down a linked forest to a node meets the start again on the way up. -/
theorem Linked.mem_ancestorsWithin (h : f.Linked) {inner : α → Bool} {k n m : NodeId}
    (hm : m ∈ f.preorderWithin inner k n) : n ∈ f.ancestorsWithin k m := by
  induction k generalizing n with
  | zero => cases hm
  | succ k ih =>
    unfold preorderWithin at hm
    split at hm
    · rcases List.mem_cons.1 hm with rfl | hm
      · exact mem_ancestorsWithin_self f k m
      · -- from below a child the walk up meets the child, whose parent is the start
        obtain ⟨c, hc, hm⟩ := List.mem_flatMap.1 hm
        exact mem_ancestorsWithin_parent (ih hm) (h n c hc)
    · rw [List.mem_singleton.1 hm]
      exact mem_ancestorsWithin_self f k n

end Forest

namespace Headless

open Document (body)

namespace Document

variable {d d' : Document}

theorem SameTree.linked (h : d.SameTree d') (hd : d.nodes.Linked) : d'.nodes.Linked :=
  hd.of_eq h.parent? h.children

theorem empty_linked : empty.nodes.Linked := by
  refine Forest.Linked.push ?_ _
  intro p c hc
  simp [Forest.children, Forest.cell?] at hc

theorem setTextContent_linked (h : d.nodes.Linked) (n : NodeId) (s : String) :
    (d.setTextContent n s).nodes.Linked := by
  have emptied : (d.nodes.clear n).Linked := h.clear n
  unfold setTextContent
  dsimp only
  split
  · exact emptied
  · exact emptied.pushUnder n _

theorem remove?_linked (h : d.nodes.Linked) {n : NodeId} (hd : d.remove? n = some d') : d'.nodes.Linked := by
  have detached : (d.nodes.detach n).Linked := h.detach n
  unfold remove? at hd
  cases hp : d.nodes.parent? n with
  | none => simp [hp] at hd
  | some p =>
    rw [hp] at hd
    cases hd
    show Forest.Linked (ite _ (d.onNodes fun nodes => nodes.detach n) _).nodes
    split
    · exact detached
    · exact detached

/-- In a linked tree what is found from the body is connected to it. -/
theorem isConnected_of_mem_identified (h : d.nodes.Linked) {n : NodeId} (hn : n ∈ d.identified) :
    d.isConnected n = true := by
  obtain ⟨walked, -⟩ := List.mem_filter.1 hn
  show (d.nodes.ancestorsWithin d.nodes.cells.size n).contains body = true
  rw [List.contains_iff_mem]
  exact h.mem_ancestorsWithin walked

/-- Elements that are listed carry an identity. -/
theorem attribute?_of_mem_identified {n : NodeId} (hn : n ∈ d.identified) :
    (d.attribute? n identityAttribute).isSome := by
  obtain ⟨-, found⟩ := List.mem_filter.1 hn
  rw [attribute?_eq]
  cases he : d.element? n with
  | none => simp [he] at found
  | some e =>
    rw [he] at found
    rw [Option.bind_some, readAttribute_of_ne (by decide)]
    exact found

end Document

namespace PageEdit

/-- The node that an edit moves is a node of the document. -/
def MovesNode (d : Document) : PageEdit → Prop
  | appendChild _ child => (d.nodes.content? child).isSome
  | _ => True

/-- An edit keeps the tree linked. -/
theorem apply_linked {d : Document} (h : d.nodes.Linked) {x : PageEdit} (hx : x.MovesNode d) :
    (x.apply d).nodes.Linked := by
  by_cases ht : Part.tree ∈ x.parts
  · cases x with
    | createElement tag => exact h.push _
    | appendElement parent tag => exact h.pushUnder parent _
    | appendIdentified parent tag identity =>
      have appended : (d.appendElement parent tag).nodes.Linked := h.pushUnder parent _
      exact appended.of_eq (fun n => Forest.parent?_modifyContent _ _ n _)
        fun n => Forest.children_modifyContent _ _ n _
    | appendText parent s => exact h.pushUnder parent _
    | appendChild parent child => exact h.append hx
    | remove n =>
      show ((d.remove? n).getD d).nodes.Linked
      cases hd : d.remove? n with
      | none => exact h
      | some d' => exact Document.remove?_linked h hd
    | setTextContent n s => exact Document.setTextContent_linked h n s
    | _ => simp [parts] at ht
  · have same : d.SameTree (x.apply d) := (x.apply_only d).same .tree ht
    exact same.linked h

end PageEdit

end Headless

end InPlace

import InPlace.Proofs.Headless.Excisions
import InPlace.Proofs.Page.Trees

/-!
# Documents in order

The tree of a document is in order from the beginning, and every edit keeps it in order that hangs nodes of the document
under such, and does not put a node inside of itself.

Main statement: `PageEdit.apply_intact`.
-/

namespace InPlace.Headless

namespace Document

variable {d d' : Document} {n : NodeId}

theorem empty_intact : empty.nodes.Intact :=
  Forest.Intact.empty.push _

theorem SameTree.intact (h : d.SameTree d') (hd : d.nodes.Intact) : d'.nodes.Intact :=
  hd.of_eq h.fresh h.parent? h.children

/-- A tree stays in order when a text is exchanged. -/
theorem setTextContent_intact (h : d.nodes.Intact) (hn : n < d.nodes.fresh) (s : String) :
    (d.setTextContent n s).nodes.Intact := by
  rw [nodes_setTextContent]
  split
  · exact h.clear n
  · refine (h.clear n).pushUnder ?_ _
    rw [Forest.fresh_clear]
    exact hn

theorem remove?_intact (h : d.nodes.Intact) (hd : d.remove? n = some d') : d'.nodes.Intact := by
  rw [nodes_remove? hd]
  exact h.detach n

end Document

namespace PageEdit

variable {x : PageEdit} {d : Document}

/-- Whether an edit puts a node inside of itself. -/
def buries (d : Document) : PageEdit → Bool
  | appendChild parent child => d.nodes.isWithin child parent
  | _ => false

/-- An edit of nodes of the document that does not put one inside of itself. -/
def Fits (d : Document) (x : PageEdit) : Prop :=
  (∀ n ∈ x.hangs, n < d.nodes.fresh) ∧ x.buries d = false

instance (d : Document) (x : PageEdit) : Decidable (x.Fits d) :=
  inferInstanceAs (Decidable (_ ∧ _))

/-- An edit that fits keeps the tree in order. -/
theorem apply_intact (h : d.nodes.Intact) (hx : x.Fits d) : (x.apply d).nodes.Intact := by
  obtain ⟨hangs, outside⟩ := hx
  by_cases ht : Part.tree ∈ x.parts
  · cases x with
    | createElement tag => exact h.push _
    | appendElement parent tag => exact h.pushUnder (hangs parent (by simp [PageEdit.hangs])) _
    | appendIdentified parent tag identity =>
      have appended : (d.appendElement parent tag).nodes.Intact :=
        h.pushUnder (hangs parent (by simp [PageEdit.hangs])) _
      exact appended.of_eq (Forest.fresh_modifyContent _ _ _) (fun n => Forest.parent?_modifyContent _ _ n _)
        fun n => Forest.children_modifyContent _ _ n _
    | appendText parent s => exact h.pushUnder (hangs parent (by simp [PageEdit.hangs])) _
    | appendChild parent child =>
      exact h.append (hangs parent (by simp [PageEdit.hangs])) (hangs child (by simp [PageEdit.hangs]))
        outside
    | remove n =>
      show ((d.remove? n).getD d).nodes.Intact
      cases hd : d.remove? n with
      | none => exact h
      | some d' => exact Document.remove?_intact h hd
    | setTextContent n s => exact Document.setTextContent_intact h (hangs n (by simp [PageEdit.hangs])) s
    | _ => simp [parts] at ht
  · exact ((x.apply_only d).same .tree ht).intact h

end PageEdit

namespace Document

variable {d : Document} {xs : List PageEdit}

/-- The document after edits. -/
def edited (d : Document) (xs : List PageEdit) : Document :=
  xs.foldl (fun d x => x.apply d) d

theorem edited_append (d : Document) (xs ys : List PageEdit) : d.edited (xs ++ ys) = (d.edited xs).edited ys :=
  List.foldl_append

/-- Each edit fits the document that the edits before it have left. -/
def AllFit (d : Document) : List PageEdit → Prop
  | [] => True
  | x :: xs => x.Fits d ∧ (x.apply d).AllFit xs

instance decidableAllFit (d : Document) : (xs : List PageEdit) → Decidable (d.AllFit xs)
  | [] => isTrue trivial
  | x :: xs =>
    have := decidableAllFit (x.apply d) xs
    inferInstanceAs (Decidable (_ ∧ _))

end Document

end InPlace.Headless

import InPlace.Proofs.Headless.Looks
import InPlace.Proofs.Headless.PutBack

/-!
# What nodes are

A node stays what it is. An edit of the tree moves nodes and makes new ones, but leaves the content of every node
that there was alone; the other edits write attributes and styles, and no tag. So an element has the tag that it was
made with.

Main statements: `PageEdit.content?_apply` and `PageEdit.tagName_apply`.
-/

namespace InPlace.Headless

theorem Document.nodes_remove? {d d' : Document} {n : NodeId} (h : d.remove? n = some d') :
    d'.nodes = d.nodes.detach n := by
  unfold remove? at h
  split at h
  · cases h
  · cases Option.some.inj h
    dsimp only [touch]
    split <;> rfl

namespace PageEdit

variable {x : PageEdit} {d : Document} {n : NodeId}

/-- An edit of the tree leaves every node what it is. -/
theorem content?_apply (hx : .tree ∈ x.parts) (hn : n < d.nodes.fresh) :
    (x.apply d).nodes.content? n = d.nodes.content? n := by
  have old : n ≠ d.nodes.fresh := Nat.ne_of_lt hn
  cases x with
  | createElement tag => exact (Forest.content?_push _ _ n).trans (if_neg old)
  | appendElement parent tag => exact (Forest.content?_pushUnder _ parent _ n).trans (if_neg old)
  | appendIdentified parent tag identity =>
    have marked := Forest.content?_modifyContent (d.appendElement parent tag).nodes d.nodes.fresh n
      (Content.mapElement fun e => { e with attributes := e.attributes.put identityAttribute identity })
    rw [if_neg (Ne.symm old)] at marked
    exact marked.trans ((Forest.content?_pushUnder _ parent _ n).trans (if_neg old))
  | appendText parent s => exact (Forest.content?_pushUnder _ parent _ n).trans (if_neg old)
  | appendChild parent child => exact Forest.content?_append _ _ _ n
  | remove m =>
    show ((d.remove? m).getD d).nodes.content? n = _
    cases h : d.remove? m with
    | none => rfl
    | some d' =>
      rw [Option.getD_some, Document.nodes_remove? h]
      exact Forest.content?_detach _ _ n
  | setTextContent m s => exact (Document.emptied_setTextContent d m s).content? n hn
  | _ => simp [parts] at hx

/-- An edit of the tree leaves every element as it is. -/
theorem element?_apply (hx : .tree ∈ x.parts) (hn : n < d.nodes.fresh) :
    (x.apply d).element? n = d.element? n :=
  congrArg (fun c : Option Content => c.bind Content.element?) (content?_apply hx hn)

/-- No edit takes a node out of the document's store. -/
theorem lt_fresh_apply (x : PageEdit) (hn : n < d.nodes.fresh) : n < (x.apply d).nodes.fresh := by
  by_cases hx : .tree ∈ x.parts
  · rw [← Forest.isSome_content?_iff, content?_apply hx hn]
    exact Forest.isSome_content?_iff.2 hn
  · rw [((x.apply_only d).same .tree hx).fresh]
    exact hn

/-- No edit changes the tag of an element. -/
theorem tagName_apply (x : PageEdit) (hn : n < d.nodes.fresh) : (x.apply d).tagName n = d.tagName n := by
  by_cases hx : .tree ∈ x.parts
  · exact congrArg (fun e : Option Element => (e.map Element.tag).getD "") (element?_apply hx hn)
  · exact Document.tagName_of_sameTree ((x.apply_only d).same .tree hx) n

end PageEdit

end InPlace.Headless

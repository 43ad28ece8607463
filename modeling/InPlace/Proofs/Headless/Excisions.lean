import InPlace.Proofs.Headless.Contents
import InPlace.Proofs.Page.Climbs

/-!
# Documents without one of their elements

Before an element is taken out of a document its text may be put back and marks inside of it may be taken away. All of
this happens within the element (`Confined`). When the element is taken out after that, every node outside of it is as
it was, but for the one list of children that the element was in (`Excised`), and the elements with an identity are
those that were there before, without the element and what is below it. The elements are looked for from the body: where
the page has put the body itself inside of the element, they are found as before.

Main statement: `Confined.excised`.
-/

namespace InPlace.Headless

namespace Document

variable {d d' d'' : Document} {n m k : NodeId} {name : String}

/-- A node of the document that is neither this node nor below it. -/
def Outside (d : Document) (n m : NodeId) : Prop :=
  m < d.nodes.fresh ∧ d.nodes.isWithin n m = false

theorem Outside.ne (h : d.Outside n m) : m ≠ n := by
  rintro rfl
  exact Bool.false_ne_true (h.2.symm.trans (Forest.isWithin_self h.1))

/-! ## Parents that are nodes -/

theorem empty_placed : empty.nodes.Placed := by
  refine Forest.Placed.push (f := {}) ?_ _
  intro n p hp
  simp [Forest.parent?, Forest.cell?] at hp

theorem SameTree.placed (h : d.SameTree d') (hd : d.nodes.Placed) : d'.nodes.Placed :=
  hd.of_eq h.fresh h.parent?

/-- Nodes stay where there are nodes when a text is exchanged. -/
theorem setTextContent_placed (h : d.nodes.Placed) (hn : n < d.nodes.fresh) (s : String) :
    (d.setTextContent n s).nodes.Placed := by
  have emptied : (d.nodes.clear n).Placed := h.clear n
  rw [nodes_setTextContent]
  split
  · exact emptied
  · refine emptied.pushUnder ?_ _
    rw [Forest.fresh_clear]
    exact hn

theorem remove?_placed (h : d.nodes.Placed) (hd : d.remove? n = some d') : d'.nodes.Placed := by
  rw [nodes_remove? hd]
  exact h.detach n

/-! ## Changes within an element -/

/-- All that has been changed of the nodes is within an element, and no node has got another parent. Whether a node is
an element and whether it has an identity is as it was. -/
structure Confined (n : NodeId) (d d' : Document) : Prop where
  fresh : d.nodes.fresh ≤ d'.nodes.fresh
  content? : ∀ m, d.Outside n m → d'.nodes.content? m = d.nodes.content? m
  elements : ∀ m < d.nodes.fresh, (d'.element? m).isSome = (d.element? m).isSome
  identities : ∀ m < d.nodes.fresh, (d'.element? m).any hasIdentity = (d.element? m).any hasIdentity
  parents : ∀ m < d.nodes.fresh, ∀ p, d'.nodes.parent? m = some p → d.nodes.parent? m = some p
  parent? : ∀ m, d.Outside n m → d'.nodes.parent? m = d.nodes.parent? m
  children : ∀ m, m ≠ n → d'.nodes.children m = d.nodes.children m
  /-- Style sheets, listeners of the document and all else that is no node. -/
  rest : d' = { d with
    nodes := d'.nodes
    elementListeners := d'.elementListeners
    focused := d'.focused
    contentMutations := d'.contentMutations }

namespace Confined

theorem refl (n : NodeId) (d : Document) : Confined n d d :=
  ⟨Nat.le_refl _, fun _ _ => rfl, fun _ _ => rfl, fun _ _ => rfl, fun _ _ _ h => h, fun _ _ => rfl, fun _ _ => rfl, rfl⟩

/-- What becomes of the listeners to elements is no change of a node. -/
theorem elementListeners (h : Confined n d d') (ls : List (NodeId × ElementEvent)) :
    Confined n d { d' with elementListeners := ls } :=
  { h with rest := by rw [h.rest] }

end Confined

/-- A text that is put in place of all that is inside of an element changes nothing outside of it. -/
theorem confined_setTextContent (hd : d.nodes.Linked) (hn : n < d.nodes.fresh) (s : String) :
    Confined n d (d.setTextContent n s) := by
  have emptied := emptied_setTextContent d n s
  have same : ∀ m < d.nodes.fresh, (d.setTextContent n s).element? m = d.element? m :=
    fun m hm => congrArg (fun c : Option Content => c.bind Content.element?) (emptied.content? m hm)
  refine ⟨emptied.fresh, fun m hm => emptied.content? m hm.1, fun m hm => by rw [same m hm],
    fun m hm => by rw [same m hm], fun m hm p hp => ?_, fun m hm => ?_, emptied.children, ?_⟩
  · rw [emptied.parent? m hm] at hp
    split at hp
    · cases hp
    · exact hp
  · rw [emptied.parent? m hm.1, if_neg]
    intro hc
    have inside := (Forest.isWithin_parent? hn hm.ne (hd n m hc)).trans (Forest.isWithin_self hn)
    exact Bool.false_ne_true (hm.2.symm.trans inside)
  · unfold setTextContent
    cases s.isEmpty with
    | true => simp only [onNodes, touch, if_true]
    | false => simp only [onNodes, touch, appendText, Bool.false_eq_true, if_false]

/-- The identity stays when another attribute goes. -/
theorem hasIdentity_drop (e : Element) (styles : Table) (h : name ≠ identityAttribute) :
    hasIdentity { e with attributes := e.attributes.drop name, styles } = hasIdentity e := by
  unfold hasIdentity
  rw [Table.get?_drop, if_neg h]

theorem isSome_element?_removeAttribute (d : Document) (k : NodeId) (name : String) (m : NodeId) :
    ((d.removeAttribute k name).element? m).isSome = (d.element? m).isSome := by
  unfold removeAttribute
  rw [element?_modifyElement]
  split
  · rw [Option.isSome_map]
  · rfl

theorem any_hasIdentity_removeAttribute (d : Document) (k : NodeId) (h : name ≠ identityAttribute) (m : NodeId) :
    ((d.removeAttribute k name).element? m).any hasIdentity = (d.element? m).any hasIdentity := by
  unfold removeAttribute
  rw [element?_modifyElement]
  split
  · rw [Option.any_map]
    exact congrArg (Option.any · _) (funext fun e => hasIdentity_drop e _ h)
  · rfl

theorem content?_removeAttribute (d : Document) (name : String) (h : k ≠ m) :
    (d.removeAttribute k name).nodes.content? m = d.nodes.content? m :=
  (Forest.content?_modifyContent _ _ _ _).trans (if_neg h)

/-- To take an attribute away from a node that is not outside of an element changes nothing outside of it. -/
theorem Confined.removeAttribute (h : Confined n d d') (hk : ¬ d.Outside n k) (name : String)
    (hname : name ≠ identityAttribute) : Confined n d (d'.removeAttribute k name) where
  fresh := h.fresh.trans_eq (Forest.fresh_modifyContent _ _ _).symm
  content? m hm := by
    have other : k ≠ m := by
      rintro rfl
      exact hk hm
    rw [content?_removeAttribute d' name other, h.content? m hm]
  elements m hm := (isSome_element?_removeAttribute d' k name m).trans (h.elements m hm)
  identities m hm := (any_hasIdentity_removeAttribute d' k hname m).trans (h.identities m hm)
  parents m hm p hp := h.parents m hm p ((Forest.parent?_modifyContent _ _ m _).symm.trans hp)
  parent? m hm := (Forest.parent?_modifyContent _ _ m _).trans (h.parent? m hm)
  children m hm := (Forest.children_modifyContent _ _ m _).trans (h.children m hm)
  rest := by
    unfold Document.removeAttribute modifyElement onNodes
    rw [h.rest]

/-- What is within an element after changes within it was within it before. -/
theorem Confined.isWithin (h : Confined n d d') (hd : d.nodes.Placed) (hn : n < d.nodes.fresh)
    (hm : d'.nodes.isWithin n m = true) : ¬ d.Outside n m :=
  fun outside => Bool.false_ne_true
    (outside.2.symm.trans (hd.isWithin_of_parents h.fresh h.parents hn outside.1 hm))

/-! ## The element is taken out -/

/-- The second document is the first without an element and what is below it. -/
structure Excised (n : NodeId) (d d' : Document) : Prop where
  /-- The element is in no list of children any more. -/
  gone : d'.nodes.parent? n = none ∧ ∀ m, n ∉ d'.nodes.children m
  content? : ∀ m, d.Outside n m → d'.nodes.content? m = d.nodes.content? m
  parent? : ∀ m, d.Outside n m → d'.nodes.parent? m = d.nodes.parent? m
  children : ∀ m, d.Outside n m → d'.nodes.children m =
    if d.nodes.parent? n = some m then (d.nodes.children m).filter (· != n) else d.nodes.children m
  /-- The walk that looks for the elements begins at the body, and ends if the body is not inside of itself. -/
  identified : ¬ d.nodes.Loops body → d'.identified =
    if d.nodes.isWithin n body then d.identified else d.identified.filter fun m => !d.nodes.isWithin n m
  /-- The focus may have been lost with the element. -/
  rest : d' = { d with
    nodes := d'.nodes
    elementListeners := d'.elementListeners
    focused := d'.focused
    contentMutations := d'.contentMutations }

theorem any_isElement (d : Document) (m : NodeId) :
    (d.nodes.content? m).any Content.isElement = (d.element? m).isSome := by
  unfold element?
  cases d.nodes.content? m <;> rfl

/-- The elements with an identity after a node was taken out of the lists of children. -/
theorem identified_of_children (hd : d.nodes.Linked) (hn : n < d.nodes.fresh) (hbody : n ≠ body)
    (loops : ¬ d.nodes.Loops body) (fresh : d.nodes.fresh ≤ d'.nodes.fresh)
    (elements : ∀ m < d.nodes.fresh, (d'.element? m).isSome = (d.element? m).isSome)
    (identities : ∀ m < d.nodes.fresh, (d'.element? m).any hasIdentity = (d.element? m).any hasIdentity)
    (children : ∀ m, m ≠ n → d'.nodes.children m = (d.nodes.children m).filter (· != n)) :
    d'.identified =
      if d.nodes.isWithin n body then d.identified else d.identified.filter fun m => !d.nodes.isWithin n m := by
  have made : body < d.nodes.fresh := Nat.lt_of_le_of_lt (Nat.zero_le n) hn
  have kinds : ∀ m < d.nodes.fresh,
      (d'.nodes.content? m).any Content.isElement = (d.nodes.content? m).any Content.isElement := by
    intro m hm
    rw [any_isElement, any_isElement, elements m hm]
  -- the second walk may go deeper than the first, and finds nothing there
  have deep : d.nodes.preorderWithin Content.isElement d'.nodes.fresh body = d.preorder body :=
    hd.preorderWithin_of_fresh_le made loops fresh
  have found : ∀ m ∈ d.preorder body, m < d.nodes.fresh := by
    intro m hm
    obtain ⟨i, -, hi⟩ := Forest.mem_ancestorsWithin_iff.1 (hd.mem_ancestorsWithin hm)
    exact Forest.lt_fresh_of_up made hi
  unfold identified
  split
  · rename_i below
    have walk : d'.preorder body = d.preorder body :=
      (hd.preorderWithin_of_below hn children kinds loops below hbody.symm (j := 0) rfl _).trans deep
    rw [walk]
    exact List.filter_congr fun m hm => identities m (found m hm)
  · rename_i outside
    have walk : d'.preorder body = (d.preorder body).filter fun m => !d.nodes.isWithin n m := by
      rw [← deep]
      exact hd.preorderWithin_eq_filter hn children (fun m hm _ => kinds m hm) made
        (eq_false_of_ne_true outside) _
    rw [walk, List.filter_filter, List.filter_filter]
    refine List.filter_congr fun m hm => ?_
    rw [identities m (found m hm), Bool.and_comm]

section

variable (removed : d'.remove? n = some d'')

include removed

theorem parent?_removed (name : String) (m : NodeId) : (d''.removeAttribute n name).nodes.parent? m =
    if m = n then none else d'.nodes.parent? m := by
  refine (Forest.parent?_modifyContent _ _ m _).trans ?_
  rw [nodes_remove? removed, Forest.parent?_detach]

/-- In a linked tree the node is taken out of every list, since no other one holds it. -/
theorem children_removed (hd' : d'.nodes.Linked) (name : String) (m : NodeId) :
    (d''.removeAttribute n name).nodes.children m = (d'.nodes.children m).filter (· != n) := by
  refine (Forest.children_modifyContent _ _ m _).trans ?_
  rw [nodes_remove? removed, Forest.children_detach]
  split
  · rfl
  · rename_i hp
    exact (hd'.filter_children hp).symm

theorem element?_removed (name : String) (m : NodeId) :
    (d''.removeAttribute n name).element? m = (d'.removeAttribute n name).element? m := by
  unfold Document.removeAttribute
  rw [element?_modifyElement, element?_modifyElement]
  unfold Document.element?
  rw [nodes_remove? removed, Forest.content?_detach]

/-- The focus may be lost with the node, and a change is counted. -/
theorem rest_removed : d'' = { d' with
    nodes := d''.nodes
    focused := d''.focused
    contentMutations := d''.contentMutations } := by
  unfold remove? at removed
  split at removed
  · cases removed
  · rw [← Option.some.inj removed]
    split <;> rfl

end

/-- An element that is taken out after changes within it is gone, and so is its last mark. -/
theorem Confined.excised (h : Confined n d d') (hd : d.nodes.Linked) (hd' : d'.nodes.Linked) (hn : n < d.nodes.fresh)
    (hbody : n ≠ body) (removed : d'.remove? n = some d'') (hname : name ≠ identityAttribute) :
    Excised n d (d''.removeAttribute n name) := by
  -- in the end the element is missing among the children of its parent, whatever became of those within it
  have children : ∀ m, m ≠ n →
      (d''.removeAttribute n name).nodes.children m = (d.nodes.children m).filter (· != n) := by
    intro m hm
    rw [children_removed removed hd', h.children m hm]
  have unmarked := h.removeAttribute (k := n) (fun outside => outside.ne rfl) name hname
  refine ⟨⟨(parent?_removed removed name n).trans (if_pos rfl), fun m hm => ?_⟩, fun m hm => ?_, fun m hm => ?_,
    fun m hm => ?_, fun loops => ?_, ?_⟩
  · rw [children_removed removed hd'] at hm
    simp at hm
  · rw [content?_removeAttribute d'' name hm.ne.symm, nodes_remove? removed, Forest.content?_detach, h.content? m hm]
  · rw [parent?_removed removed, if_neg hm.ne, h.parent? m hm]
  · rw [children m hm.ne]
    split
    · rfl
    · rename_i hp
      exact hd.filter_children hp
  · refine identified_of_children hd hn hbody loops ?_ (fun m hm => ?_) (fun m hm => ?_) children
    · refine h.fresh.trans_eq (Eq.symm ((Forest.fresh_modifyContent _ _ _).trans ?_))
      rw [nodes_remove? removed, Forest.fresh_detach]
    · rw [element?_removed removed, unmarked.elements m hm]
    · rw [element?_removed removed, unmarked.identities m hm]
  · unfold Document.removeAttribute modifyElement onNodes
    rw [rest_removed removed, h.rest]

end Document

namespace PageEdit

/-- The node that an edit moves, and the node under which it puts one. -/
def hangs : PageEdit → List NodeId
  | appendChild parent child => [parent, child]
  | appendElement parent _ | appendIdentified parent _ _ | appendText parent _ | setTextContent parent _ => [parent]
  | _ => []

variable {x : PageEdit} {d : Document}

theorem movesNode_of_hangs (h : ∀ n ∈ x.hangs, n < d.nodes.fresh) : x.MovesNode d := by
  cases x with
  | appendChild parent child => exact Forest.isSome_content?_iff.2 (h child (by simp [hangs]))
  | _ => trivial

/-- An edit keeps every parent a node, if it hangs nodes of the document only under such. -/
theorem apply_placed (h : d.nodes.Placed) (hx : ∀ n ∈ x.hangs, n < d.nodes.fresh) : (x.apply d).nodes.Placed := by
  by_cases ht : Part.tree ∈ x.parts
  · cases x with
    | createElement tag => exact h.push _
    | appendElement parent tag => exact h.pushUnder (hx parent (by simp [hangs])) _
    | appendIdentified parent tag identity =>
      have appended : (d.appendElement parent tag).nodes.Placed := h.pushUnder (hx parent (by simp [hangs])) _
      exact appended.of_eq (Forest.fresh_modifyContent _ _ _) fun n => Forest.parent?_modifyContent _ _ n _
    | appendText parent s => exact h.pushUnder (hx parent (by simp [hangs])) _
    | appendChild parent child => exact h.append (hx parent (by simp [hangs])) (hx child (by simp [hangs]))
    | remove n =>
      show ((d.remove? n).getD d).nodes.Placed
      cases hd : d.remove? n with
      | none => exact h
      | some d' => exact Document.remove?_placed h hd
    | setTextContent n s => exact Document.setTextContent_placed h (hx n (by simp [hangs])) s
    | _ => simp [parts] at ht
  · exact ((x.apply_only d).same .tree ht).placed h

end PageEdit

end InPlace.Headless

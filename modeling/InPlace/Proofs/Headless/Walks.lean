import InPlace.Proofs.Headless.Focus
import InPlace.Proofs.Page.Order

/-!
# Walks in a document

A document stores nodes in many places, as parents and children, with the focus and with its listeners. Whatever edits
are made, all that it stores are nodes that it has, and its tree is in order (`Stored`). So a loop up from any node ends,
and so does a recursion down from any node.

The elements with an identity are looked for in elements only. They are all found if only elements have been used as
parents: then nothing but elements holds other nodes (`OnlyElementsHold`).

Main statements: `Stored.edited`, `onlyElementsHold_edited`, `Stored.descent_textContent` and `Stored.mem_identified_iff`.
-/

namespace InPlace.Headless

open Document (body)

/-- All that a document stores are nodes that it has, and its tree is in order. -/
structure Document.Stored (d : Document) : Prop where
  intact : d.nodes.Intact
  body : body < d.nodes.fresh
  parent : ∀ n p, d.nodes.parent? n = some p → n < d.nodes.fresh ∧ p < d.nodes.fresh
  children : ∀ p n, n ∈ d.nodes.children p → n < d.nodes.fresh
  focused : ∀ n, d.focused = some n → n < d.nodes.fresh
  elementListeners : ∀ n l, (n, l) ∈ d.elementListeners → n < d.nodes.fresh

/-- Only elements have other nodes inside of them. -/
def Document.OnlyElementsHold (d : Document) : Prop :=
  ∀ p, d.nodes.children p ≠ [] → (d.element? p).isSome

namespace PageEdit

variable {x : PageEdit} {d : Document} {n p : NodeId} {l : ElementEvent}

/-! ## What is stored -/

/-- A focus that is there after a removal was there before. -/
theorem focused_remove (there : ((remove p).apply d).focused = some n) : d.focused = some n := by
  change ((d.remove? p).getD d).focused = some n at there
  unfold Document.remove? at there
  split at there
  · exact there
  · dsimp only [Option.getD_some] at there
    split at there
    · exact there
    · cases there

/-- A focus that is there after it moved was there, or has moved to a node of the document. -/
theorem focused_focus (there : ((focus p).apply d).focused = some n) :
    d.focused = some n ∨ d.isConnected n = true := by
  change (orSame d (d.focus p)).focused = some n at there
  unfold Document.focus at there
  split at there
  · rename_i connected
    cases there
    exact .inr connected
  · exact .inl there

/-- The focus stays where it was, or is given to a node of the document. -/
theorem lt_fresh_of_focused_apply (hb : body < d.nodes.fresh) (hd : ∀ m, d.focused = some m → m < d.nodes.fresh)
    (hn : (x.apply d).focused = some n) : n < d.nodes.fresh := by
  by_cases hr : ∃ m, x = remove m
  · obtain ⟨m, rfl⟩ := hr
    exact hd n (focused_remove hn)
  · by_cases hf : ∃ m, x = focus m
    · obtain ⟨m, rfl⟩ := hf
      rcases focused_focus hn with there | connected
      · exact hd n there
      · obtain ⟨k, hk⟩ := Forest.exists_up_of_isWithin connected
        exact Forest.lt_fresh_of_up hb hk
    · rw [focused_apply (fun m hm => hr ⟨m, hm⟩) fun m hm => hf ⟨m, hm⟩] at hn
      exact hd n hn

/-- A registration that is new is with an element. -/
theorem lt_fresh_of_mem_elementListeners_apply (hd : ∀ m k, (m, k) ∈ d.elementListeners → m < d.nodes.fresh)
    (hn : (n, l) ∈ (x.apply d).elementListeners) : n < d.nodes.fresh := by
  by_cases hl : Part.elementListeners ∈ x.parts
  · cases x with
    | listenTo m k =>
      have registered : (n, l) ∈ (orSame d (d.listenTo m k)).elementListeners →
          (n, l) ∈ d.elementListeners ∨ n = m ∧ (d.element? m).isSome := by
        intro there
        unfold Document.listenTo Document.ifElement at there
        split at there
        · rename_i e found
          rcases List.mem_cons.1 there with new | old
          · exact .inr ⟨congrArg Prod.fst new, by rw [found]; rfl⟩
          · exact .inl old
        · exact .inl there
      rcases registered hn with old | ⟨rfl, element⟩
      · exact hd n l old
      · obtain ⟨e, found⟩ := Option.isSome_iff_exists.1 element
        exact Forest.lt_fresh_of_content? (Document.content?_of_element? found)
    | unlistenTo m k => exact hd n l (List.mem_of_mem_erase hn)
    | _ => simp [parts] at hl
  · have same : (x.apply d).elementListeners = d.elementListeners := (x.apply_only d).same .elementListeners hl
    exact hd n l (same ▸ hn)

/-! ## What has other nodes inside -/

/-- The node under which an edit puts another one. -/
def parents : PageEdit → List NodeId
  | appendChild parent _ | appendElement parent _ | appendIdentified parent _ _ | appendText parent _ => [parent]
  | setTextContent n s => if s.isEmpty then [] else [n]
  | _ => []

/-- What has nodes inside of it after an edit had some before, or is what the edit puts one under. -/
theorem children_ne_nil_of_apply (hp : (x.apply d).nodes.children p ≠ []) :
    d.nodes.children p ≠ [] ∨ p ∈ x.parents := by
  by_cases hq : p ∈ x.parents
  · exact .inr hq
  -- a node without any inside of it gets one only as the parent that an edit names
  refine .inl fun none => ?_
  by_cases ht : Part.tree ∈ x.parts
  · cases x with
    | createElement tag => exact hp ((Forest.children_push _ _ p).trans none)
    | appendElement parent tag =>
      exact hp ((Forest.children_pushUnder_of_ne _ _ (by simpa [parents] using hq)).trans none)
    | appendIdentified parent tag identity =>
      exact hp ((Forest.children_modifyContent _ _ p _).trans
        ((Forest.children_pushUnder_of_ne _ _ (by simpa [parents] using hq)).trans none))
    | appendText parent s =>
      exact hp ((Forest.children_pushUnder_of_ne _ _ (by simpa [parents] using hq)).trans none)
    | appendChild parent child =>
      obtain ⟨c, hc⟩ := List.exists_mem_of_ne_nil _ hp
      rcases Forest.mem_children_append hc with old | ⟨same, -⟩
      · exact List.not_mem_nil (none ▸ (Forest.mem_children_detach old).1)
      · exact hq (by simp [parents, same])
    | remove m =>
      have listed : ((d.remove? m).getD d).nodes.children p ≠ [] := hp
      cases hd : d.remove? m with
      | none =>
        rw [hd] at listed
        exact listed none
      | some d' =>
        rw [hd, Option.getD_some, Document.nodes_remove? hd] at listed
        obtain ⟨c, hc⟩ := List.exists_mem_of_ne_nil _ listed
        exact List.not_mem_nil (none ▸ (Forest.mem_children_detach hc).1)
    | setTextContent m s =>
      have listed : (d.setTextContent m s).nodes.children p ≠ [] := hp
      have cleared : (d.nodes.clear m).children p = [] := by rw [Forest.children_clear, none, ite_self]
      rw [Document.nodes_setTextContent] at listed
      cases hs : s.isEmpty with
      | true =>
        rw [hs, if_pos rfl] at listed
        exact listed cleared
      | false =>
        rw [hs, if_neg Bool.false_ne_true] at listed
        have other : p ≠ m := by simpa [parents, hs] using hq
        exact listed ((Forest.children_pushUnder_of_ne _ _ other).trans cleared)
    | _ => simp [parts] at ht
  · exact hp ((((x.apply_only d).same .tree ht).children p).trans none)

/-- Only elements hold others after an edit that hangs nodes under elements. -/
theorem apply_onlyElementsHold (h : d.OnlyElementsHold) (hx : ∀ n ∈ x.parents, (d.element? n).isSome) :
    (x.apply d).OnlyElementsHold := by
  intro p hp
  refine (x.apply_only d).elements p ?_
  rcases children_ne_nil_of_apply hp with old | new
  · exact h p old
  · exact hx p new

/-- An edit that fits stores nodes only. -/
theorem apply_stored (h : d.Stored) (hx : x.Fits d) : (x.apply d).Stored where
  intact := apply_intact h.intact hx
  body := x.lt_fresh_apply h.body
  parent n p hp :=
    ⟨Forest.lt_fresh_of_parent? hp, (apply_intact h.intact hx).placed n p hp⟩
  children p n hn := Forest.lt_fresh_of_parent? ((apply_intact h.intact hx).linked p n hn)
  focused _ hn := x.lt_fresh_apply (lt_fresh_of_focused_apply h.body h.focused hn)
  elementListeners _ _ hn := x.lt_fresh_apply (lt_fresh_of_mem_elementListeners_apply h.elementListeners hn)

end PageEdit

namespace Document

variable {d : Document} {xs : List PageEdit} {n m : NodeId}

/-! ## Runs of edits -/

theorem empty_stored : empty.Stored where
  intact := empty_intact
  body := by decide
  parent n p hp := ⟨Forest.lt_fresh_of_parent? hp, empty_intact.placed n p hp⟩
  children p n hn := Forest.lt_fresh_of_parent? (empty_intact.linked p n hn)
  focused _ hn := nomatch hn
  elementListeners _ _ hn := absurd hn List.not_mem_nil

theorem empty_onlyElementsHold : empty.OnlyElementsHold := by
  intro p hp
  refine absurd ?_ hp
  show (Forest.push {} _).children p = []
  rw [Forest.children_push]
  simp [Forest.children, Forest.cell?]

theorem Stored.edited (h : d.Stored) (hxs : d.AllFit xs) : (d.edited xs).Stored := by
  induction xs generalizing d with
  | nil => exact h
  | cons x xs ih => exact ih (PageEdit.apply_stored h hxs.1) hxs.2

/-- Each edit puts nodes only under elements of the document that the edits before it have left. -/
def UsesElements (d : Document) : List PageEdit → Prop
  | [] => True
  | x :: xs => (∀ n ∈ x.parents, (d.element? n).isSome) ∧ (x.apply d).UsesElements xs

instance decidableUsesElements (d : Document) : (xs : List PageEdit) → Decidable (d.UsesElements xs)
  | [] => isTrue trivial
  | x :: xs =>
    have := decidableUsesElements (x.apply d) xs
    inferInstanceAs (Decidable (_ ∧ _))

theorem onlyElementsHold_edited (h : d.OnlyElementsHold) (hxs : d.UsesElements xs) :
    (d.edited xs).OnlyElementsHold := by
  induction xs generalizing d with
  | nil => exact h
  | cons x xs ih => exact ih (PageEdit.apply_onlyElementsHold h hxs.1) hxs.2

/-! ## Walks down -/

namespace Stored

variable (h : d.Stored)

include h

/-- The text of a node is collected by going down through elements. -/
theorem descent_textContent (hn : n < d.nodes.fresh) : ∃ texts,
    d.nodes.Descent Content.isElement (fun m => (d.text? m).toList) n texts ∧ d.textContent n = String.join texts := by
  refine ⟨_, h.intact.descent Content.isElement _ hn, ?_⟩
  rw [textContent, List.filterMap_eq_flatMap_toList]
  rfl

/-- The elements with an identity below a node are collected in the same way. -/
theorem descent_identified (hn : n < d.nodes.fresh) :
    d.nodes.Descent Content.isElement (fun m => if (d.element? m).any hasIdentity then [m] else []) n
      ((d.preorder n).filter fun m => (d.element? m).any hasIdentity) := by
  have taken : ∀ ns : List NodeId, ns.filter (fun m => (d.element? m).any hasIdentity) =
      ns.flatMap fun m => if (d.element? m).any hasIdentity then [m] else [] := by
    intro ns
    induction ns with
    | nil => rfl
    | cons m ns ih =>
      rw [List.filter_cons, List.flatMap_cons, ← ih]
      split <;> rfl
  rw [taken]
  exact h.intact.descent Content.isElement _ hn

/-- The elements with an identity stand in the order of the tree, none of them twice. -/
theorem pairwise_identified : d.identified.Pairwise d.nodes.Before :=
  (h.intact.pairwise_preorder Content.isElement h.body).filter _

theorem nodup_identified : d.identified.Nodup :=
  h.intact.nodup_of_pairwise h.pairwise_identified

/-- Where only elements hold nodes, all connected elements with an identity are found, and no others. -/
theorem mem_identified_iff (elements : d.OnlyElementsHold) :
    n ∈ d.identified ↔ d.isConnected n = true ∧ (d.element? n).any hasIdentity = true := by
  have inner : ∀ p, d.nodes.children p ≠ [] → (d.nodes.content? p).any Content.isElement = true := by
    intro p hp
    obtain ⟨e, he⟩ := Option.isSome_iff_exists.1 (elements p hp)
    rw [content?_of_element? he]
    rfl
  rw [identified, List.mem_filter]
  exact and_congr_left' (h.intact.mem_preorder_iff inner h.body)

end Stored

end Document

end InPlace.Headless

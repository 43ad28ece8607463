import InPlace.Proofs.Headless.Parts

/-!
# Looks

What decides whether content is preformatted: the tags of elements, their styles, and which element is inside
of which. Attributes other than `style`, the focus and the listeners do not matter.

Main statement: `SameLooks.isPreformatted_eq` (in documents that look the same the same is preformatted).
-/

namespace InPlace

namespace Editability

variable {P N : Type} [Page P N] {page : P} {n : N}

/-- Styles may be edited exactly where the content is not preformatted. -/
theorem styles_ofElement (page : P) (n : N) :
    (ofElement page n).styles = !isPreformatted page n := by
  cases h : isPreformatted page n with
  | true =>
    rw [ofElement_eq_none_iff.2 h]
    rfl
  | false =>
    have some : ofElement page n ≠ none := by
      intro hn
      rw [ofElement_eq_none_iff.1 hn] at h
      cases h
    unfold ofElement classify at some ⊢
    dsimp only at some ⊢
    split
    · rename_i hp
      rw [if_pos hp] at some
      exact absurd rfl some
    · rfl

/-- Texts may be edited in tags of running text where the content is not preformatted. -/
theorem text_ofElement (page : P) (n : N) :
    (ofElement page n).text =
      (textTags.contains (lowerCase (Page.tagName page n)) && (ofElement page n).styles) := by
  unfold ofElement classify
  dsimp only
  split
  · rw [none, Bool.and_false]
  · rw [Bool.and_true]

/-- Something may be edited exactly where the content is not preformatted. -/
theorem isEditable_ofElement (page : P) (n : N) :
    (ofElement page n).isEditable = !isPreformatted page n := by
  rw [← styles_ofElement, isEditable, text_ofElement]
  cases (ofElement page n).styles
  · rw [Bool.and_false, Bool.or_self]
  · rw [Bool.or_true]

end Editability

namespace Headless

/-- What an element contributes to its looks. -/
def Element.look (e : Element) : String × Table × Table :=
  (e.tag, e.styles, e.computed)

/-- The value of `white-space` that an element with this look sets itself. -/
def whiteSpaceOfLook? (l : String × Table × Table) : Option String :=
  ((l.2.1.get? "white-space").or (l.2.2.get? "white-space")).or
    (if l.1 = "pre" then some "pre" else if l.1 = "textarea" then some "pre-wrap" else none)

namespace Document

/-- The same elements with the same tags and styles inside of the same elements. -/
structure SameLooks (d d' : Document) : Prop where
  ancestors : ∀ n, d'.nodes.ancestors n = d.nodes.ancestors n
  look : ∀ n, (d'.element? n).map Element.look = (d.element? n).map Element.look

namespace SameLooks

variable {d d' d'' : Document} {n : NodeId}

theorem refl (d : Document) : SameLooks d d :=
  ⟨fun _ => rfl, fun _ => rfl⟩

theorem trans (h : SameLooks d d') (h' : SameLooks d' d'') : SameLooks d d'' :=
  ⟨fun n => (h'.ancestors n).trans (h.ancestors n), fun n => (h'.look n).trans (h.look n)⟩

/-- What an element says about itself is read off its look. -/
theorem read {β : Type} (h : SameLooks d d') (g : String × Table × Table → β) (n : NodeId) :
    (d'.element? n).map (fun e => g e.look) = (d.element? n).map fun e => g e.look := by
  have same := congrArg (Option.map g) (h.look n)
  rwa [Option.map_map, Option.map_map] at same

theorem tagName_eq (h : SameLooks d d') (n : NodeId) : d'.tagName n = d.tagName n :=
  congrArg (fun tag => tag.getD "") (h.read Prod.fst n)

/-- Documents that look the same set their spaces alike. -/
theorem ownWhiteSpace?_eq (h : SameLooks d d') : d'.ownWhiteSpace? = d.ownWhiteSpace? := by
  funext n
  have own : ∀ d : Document, d.ownWhiteSpace? n =
      ((d.element? n).map fun e => whiteSpaceOfLook? e.look).join := by
    intro d
    unfold ownWhiteSpace?
    cases d.element? n <;> rfl
  rw [own, own, h.read]

theorem whiteSpace_eq (h : SameLooks d d') (n : NodeId) : d'.whiteSpace n = d.whiteSpace n := by
  unfold whiteSpace
  rw [h.ancestors, h.ownWhiteSpace?_eq]

/-- In documents that look the same the same is preformatted. -/
theorem isPreformatted_eq {page page' : Headless} (h : SameLooks page.document page'.document)
    (n : NodeId) : Editability.isPreformatted page' n = Editability.isPreformatted page n := by
  have white : ∀ page : Headless, Editability.whiteSpaceOf page n = some (page.document.whiteSpace n) :=
    fun _ => rfl
  unfold Editability.isPreformatted
  rw [white, white, h.whiteSpace_eq, show Page.tagName page' n = Page.tagName page n from h.tagName_eq n]

end SameLooks

theorem tagName_of_sameTree {d d' : Document} (h : d.SameTree d') (n : NodeId) :
    d'.tagName n = d.tagName n :=
  congrArg (fun tag => tag.getD "") (h.tag? n)

/-! ## Changes that do not show -/

section

variable {d d' : Document} {n : NodeId} {name value : String}

theorem sameLooks_of_nodes (h : d'.nodes = d.nodes) : SameLooks d d' := by
  refine ⟨fun n => by rw [h], fun n => ?_⟩
  unfold element?
  rw [h]

/-- A change of an element that keeps its tag and its styles. -/
theorem sameLooks_modifyElement (d : Document) (n : NodeId) {f : Element → Element}
    (hf : ∀ e, (f e).look = e.look) : SameLooks d (d.modifyElement n f) := by
  constructor
  · exact Forest.ancestors_congr (Forest.fresh_modifyContent _ _ _)
      fun m => Forest.parent?_modifyContent _ _ m _
  · intro m
    rw [element?_modifyElement]
    split
    · rw [Option.map_map]
      exact Option.map_congr fun e _ => hf e
    · rfl

theorem sameLooks_setAttribute (hname : name ≠ "style") (h : d.setAttribute n name value = .ok d') :
    SameLooks d d' := by
  obtain ⟨e, -, rfl⟩ := ifElement_eq_ok h
  dsimp only
  rw [if_neg hname]
  exact sameLooks_modifyElement d n fun _ => rfl

theorem sameLooks_removeAttribute (hname : name ≠ "style") (d : Document) (n : NodeId) :
    SameLooks d (d.removeAttribute n name) := by
  refine sameLooks_modifyElement d n fun e => ?_
  simp only [Element.look, if_neg hname]

theorem sameLooks_focus (h : d.focus n = .ok d') : SameLooks d d' := by
  unfold focus at h
  split at h
  · cases Except.ok.inj h
    exact sameLooks_of_nodes rfl
  · cases h

theorem sameLooks_listenTo {l : ElementEvent} (h : d.listenTo n l = .ok d') : SameLooks d d' := by
  obtain ⟨e, -, rfl⟩ := ifElement_eq_ok h
  exact sameLooks_of_nodes rfl

end

end Document

end Headless

end InPlace

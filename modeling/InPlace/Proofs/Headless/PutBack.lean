import InPlace.Proofs.Headless.Edits
import InPlace.Proofs.Headless.Text
import InPlace.Proofs.Page.Styles

/-!
# Putting back texts and styles

The text of an element is put back by setting its text content, and its inline style by setting the
attribute. Neither brings back all that was there: the text then stands in one node in place of whatever the
element held, and the style is written anew from its declarations.

Main statements: `refilled_setTextContent`, `Refilled.isConnected` and `attribute?_restyled`.
-/

namespace InPlace.Headless.Document

variable {d d' d'' : Document} {n m : NodeId}

/-! ## Texts -/

/-- The second document has the text of an element in one node, in place of what the element held in the
first. What it held has lost its parent, and everything else is where it was. -/
structure Refilled (n : NodeId) (d d' : Document) : Prop where
  inside : d'.OnlyText n (d.textContent n)
  fresh : d.nodes.fresh ≤ d'.nodes.fresh
  tag? : ∀ m < d.nodes.fresh, (d'.element? m).map Element.tag = (d.element? m).map Element.tag
  text? : ∀ m < d.nodes.fresh, d'.text? m = d.text? m
  children : ∀ m, m ≠ n → d'.nodes.children m = d.nodes.children m
  parent? : ∀ m < d.nodes.fresh,
    d'.nodes.parent? m = if m ∈ d.nodes.children n then none else d.nodes.parent? m

theorem Refilled.of_sameTree (h : Refilled n d d') (t : d'.SameTree d'') : Refilled n d d'' where
  inside := h.inside.of_sameTree t
  fresh := h.fresh.trans_eq t.fresh.symm
  tag? m hm := (t.tag? m).trans (h.tag? m hm)
  text? m hm := (t.text? m).trans (h.text? m hm)
  children m hm := (t.children m).trans (h.children m hm)
  parent? m hm := (t.parent? m).trans (h.parent? m hm)

theorem Refilled.of_sameTree_left (h : Refilled n d' d'') (t : d.SameTree d') : Refilled n d d'' where
  inside := textContent_of_sameTree t n ▸ h.inside
  fresh := t.fresh ▸ h.fresh
  tag? m hm := (h.tag? m (t.fresh ▸ hm)).trans (t.tag? m)
  text? m hm := (h.text? m (t.fresh ▸ hm)).trans (t.text? m)
  children m hm := (h.children m hm).trans (t.children m)
  parent? m hm := by
    rw [h.parent? m (t.fresh ▸ hm), t.children, t.parent?]

theorem nodes_setTextContent (d : Document) (n : NodeId) (s : String) :
    (d.setTextContent n s).nodes =
      if s.isEmpty then d.nodes.clear n else (d.nodes.clear n).pushUnder n (.text s) := by
  unfold setTextContent
  dsimp only
  split <;> rfl

/-- A forest in which one node was emptied and may have been given a new child. -/
structure Emptied (n : NodeId) (f g : Forest Content) : Prop where
  fresh : f.fresh ≤ g.fresh
  content? : ∀ m < f.fresh, g.content? m = f.content? m
  children : ∀ m, m ≠ n → g.children m = f.children m
  parent? : ∀ m < f.fresh, g.parent? m = if m ∈ f.children n then none else f.parent? m

/-- When a text is exchanged, the element is emptied and filled with one new node. -/
theorem emptied_setTextContent (d : Document) (n : NodeId) (s : String) :
    Emptied n d.nodes (d.setTextContent n s).nodes := by
  have same := Forest.fresh_clear d.nodes n
  have cleared : Emptied n d.nodes (d.nodes.clear n) :=
    { fresh := same.ge
      content? := fun m _ => Forest.content?_clear d.nodes n m
      children := fun m hm => by rw [Forest.children_clear, if_neg hm]
      parent? := fun m _ => Forest.parent?_clear d.nodes n m }
  rw [nodes_setTextContent]
  split
  · exact cleared
  · refine ⟨?_, fun m hm => ?_, fun m hm => ?_, fun m hm => ?_⟩
    · rw [Forest.fresh_pushUnder, same]
      exact Nat.le_succ _
    · rw [Forest.content?_pushUnder, if_neg (same ▸ Nat.ne_of_lt hm), cleared.content? m hm]
    · rw [Forest.children_pushUnder_of_ne _ _ hm, cleared.children m hm]
    · rw [Forest.parent?_pushUnder_of_lt _ _ (same.symm ▸ hm), cleared.parent? m hm]

/-- An element whose own text content was set is refilled. -/
theorem refilled_setTextContent (h : (d.element? n).isSome) :
    Refilled n d (d.setTextContent n (d.textContent n)) := by
  have emptied := emptied_setTextContent d n (d.textContent n)
  refine ⟨onlyText_setTextContent h _, emptied.fresh, fun m hm => ?_, fun m hm => ?_, emptied.children,
    emptied.parent?⟩
  · unfold element?
    rw [emptied.content? m hm]
  · unfold text?
    rw [emptied.content? m hm]

/-- What was in the document and not inside of the element stays in the document. -/
theorem Refilled.isConnected (h : Refilled n d d') (hm : d.isConnected m = true)
    (hout : ∀ a ∈ d.nodes.ancestors m, a ∉ d.nodes.children n) : d'.isConnected m = true := by
  have there : body ∈ d.nodes.ancestors m := List.contains_iff_mem.1 hm
  refine List.contains_iff_mem.2 (Forest.mem_ancestors_of_parents h.fresh ?_ there)
  intro a ha p hp
  rw [h.parent? a (Forest.lt_fresh_of_parent? hp), if_neg (hout a ha), hp]

/-! ## Styles -/

/-- What the style of an element reads after it was written. -/
theorem attribute?_setAttribute_style {value : String} (h : d.setAttribute n "style" value = .ok d')
    (m : NodeId) :
    d'.attribute? m "style" = if n = m then some (Styles.rewritten value) else d.attribute? m "style" := by
  obtain ⟨e, he, rfl⟩ := ifElement_eq_ok h
  have written : ((d.modifyElement n fun e => { e with attributes := e.attributes.put "style" value })
      |>.modifyElement n fun e => { e with styles := Styles.ofText value }).attribute? m "style" =
        if n = m then some (Styles.rewritten value) else d.attribute? m "style" := by
    rw [attribute?_eq, attribute?_eq, element?_modifyElement, element?_modifyElement]
    by_cases hm : n = m
    · subst hm
      simp only [if_true, he, Option.map_some, Option.bind_some, readAttribute, true_and,
        Table.get?_put, Styles.rewritten]
      by_cases hs : Styles.ofText value = []
      · rw [if_neg (not_not_intro hs), if_pos hs]
      · rw [if_pos hs, if_neg hs]
    · simp only [if_neg hm]
  exact written

/-- The document with the style of an element put back. -/
def restyled (d : Document) (n : NodeId) : Option String → Document
  | some value => PageEdit.orSame d (d.setAttribute n "style" value)
  | none => d.removeAttribute n "style"

/-- A style that was put back is written anew, if there is an element to have it. -/
theorem attribute?_restyled (d : Document) (n : NodeId) (style : Option String) (m : NodeId) :
    (d.restyled n style).attribute? m "style" =
      if n = m ∧ (d.element? m).isSome then style.map Styles.rewritten
      else d.attribute? m "style" := by
  cases he : d.element? n with
  | none =>
    have kept : (d.restyled n style).attribute? m "style" = d.attribute? m "style" := by
      cases style with
      | some value =>
        unfold restyled setAttribute ifElement
        rw [he]
        rfl
      | none =>
        refine (attribute?_removeAttribute d n m "style").trans ?_
        split
        · rename_i hm
          rw [attribute?_eq, ← hm, he]
          rfl
        · rfl
    rw [kept, if_neg]
    rintro ⟨rfl, hm⟩
    rw [he] at hm
    cases hm
  | some e =>
    have there : n = m ∧ (d.element? m).isSome ↔ n = m := by
      refine ⟨And.left, ?_⟩
      rintro rfl
      exact ⟨rfl, by rw [he]; rfl⟩
    rw [if_congr there rfl rfl]
    cases style with
    | some value =>
      obtain ⟨d', hd⟩ : ∃ d', d.setAttribute n "style" value = .ok d' :=
        let ⟨_, _, worked⟩ := ifElement_of_isSome (Option.isSome_iff_exists.2 ⟨e, he⟩) _
        ⟨_, worked⟩
      have restyled : d.restyled n (some value) = d' := by
        show PageEdit.orSame d (d.setAttribute n "style" value) = d'
        rw [hd]
        rfl
      rw [restyled]
      exact attribute?_setAttribute_style hd m
    | none => exact attribute?_removeAttribute d n m "style"

end InPlace.Headless.Document

import InPlace.Proofs.Browser.Tidiness

/-!
# What is put back

An editor that lets go puts back the text of the element that it edits and the inline style of the one that it has
selected. It does more after that: it takes marks away and style sheets out of the document. The text stays nevertheless,
since only elements are taken out, and the style stays, since none of the marks is a style.

Main statements: `textContent_undressed` and `style_undressed`.
-/

namespace InPlace.Browser.Document

variable {d : Document} {n m : NodeId} {s : String}

/-- An element with this text inside and nothing else. -/
structure OnlyText (d : Document) (n : NodeId) (s : String) : Prop where
  element : (d.element? n).isSome
  inside : (d.nodes.children n = [] ∧ s = "") ∨ ∃ c, d.nodes.children n = [c] ∧ d.text? c = some s

/-- The element with one text has that text as its content. -/
theorem OnlyText.textContent (h : OnlyText d n s) : d.textContent n = s := by
  obtain ⟨e, he⟩ := Option.isSome_iff_exists.1 h.element
  have hn := content?_of_element? he
  have own : d.text? n = none := by
    rw [text?, hn]
    rfl
  have inner : (d.nodes.content? n).any Content.isInner = true := by
    rw [hn]
    rfl
  have hlt := Forest.lt_fresh_of_content? hn
  unfold Document.textContent preorder Forest.preorder
  rcases h.inside with ⟨hc, rfl⟩ | ⟨c, hc, ht⟩
  · obtain ⟨k, hk⟩ := Nat.exists_eq_succ_of_ne_zero (Nat.ne_of_gt (Nat.zero_lt_of_lt hlt))
    rw [show d.nodes.cells.size = k + 1 from hk, Forest.preorderWithin, if_pos inner, hc]
    simp [own]
  · have hcc := content?_of_text? ht
    have hne : n ≠ c := by
      intro heq
      rw [heq, hcc] at hn
      cases hn
    obtain ⟨k, hk⟩ : ∃ k, d.nodes.cells.size = k + 2 := by
      refine Nat.exists_eq_add_of_le' (Nat.succ_le_of_lt ?_)
      rcases Nat.lt_or_gt_of_ne hne with h | h
      · exact Nat.lt_of_le_of_lt (Nat.one_le_of_lt h) (Forest.lt_fresh_of_content? hcc)
      · exact Nat.lt_of_le_of_lt (Nat.one_le_of_lt h) hlt
    have leaf : (d.nodes.content? c).any Content.isInner = false := by
      rw [hcc]
      rfl
    rw [hk, Forest.preorderWithin, if_pos inner, hc, List.flatMap_singleton, Forest.preorderWithin, leaf]
    simp [own, ht]

theorem text?_modifyElement (d : Document) (n m : NodeId) (f : Element → Element) :
    (d.modifyElement n f).text? m = d.text? m :=
  Forest.bind_content?_modifyContent d.nodes n m fun c => by cases c <;> rfl

/-- A change of elements leaves a text alone. -/
theorem OnlyText.modifyElement (h : OnlyText d n s) (m : NodeId) (f : Element → Element) :
    OnlyText (d.modifyElement m f) n s where
  element := (isSome_element?_modifyElement d m n f).trans h.element
  inside := by
    have children : (d.modifyElement m f).nodes.children n = d.nodes.children n :=
      Forest.children_modifyContent d.nodes m n _
    rw [children]
    rcases h.inside with ⟨hc, hs⟩ | ⟨c, hc, ht⟩
    · exact .inl ⟨hc, hs⟩
    · exact .inr ⟨c, hc, (text?_modifyElement d m c f).trans ht⟩

theorem OnlyText.setAttribute (h : OnlyText d n s) (m : NodeId) (name : String) (value : Option String) :
    OnlyText (d.setAttribute m name value) n s := by
  cases value with
  | none => exact h.modifyElement m _
  | some value => exact h.modifyElement m _

theorem OnlyText.setBodyCursor (h : OnlyText d n s) (cursor : Option String) : OnlyText (d.setBodyCursor cursor) n s := by
  unfold Document.setBodyCursor
  split
  · exact h
  · exact h.modifyElement _ _

/-- An attribute of the body leaves a text alone. -/
theorem OnlyText.setBodyAttribute (h : OnlyText d n s) (name : String) (value : Option String) :
    OnlyText (d.setBodyAttribute name value) n s := by
  unfold Document.setBodyAttribute
  split
  · exact h
  · exact h.setAttribute _ _ _

theorem OnlyText.released (h : OnlyText d n s) (x : Option (Selection NodeId)) : OnlyText (d.released x) n s := by
  cases x with
  | none => exact h
  | some x => exact (h.setAttribute _ _ _).setAttribute _ _ _

theorem OnlyText.unhovered (h : OnlyText d n s) (x : Option NodeId) : OnlyText (d.unhovered x) n s := by
  cases x with
  | none => exact h
  | some x =>
    exact (h.setAttribute x Overlay.hoveredAttribute none).setAttribute x Overlay.fullWidthAttribute none

/-- What is taken out of the document is no text. -/
theorem OnlyText.detach (h : OnlyText d n s) (hm : (d.element? m).isSome) : OnlyText (d.detach m) n s := by
  have content : ∀ c, (d.detach m).nodes.content? c = d.nodes.content? c := fun c => by
    rw [nodes_detach, Forest.content?_detach]
  refine ⟨?_, ?_⟩
  · rw [element?, content]
    exact h.element
  · rw [nodes_detach, Forest.children_detach]
    rcases h.inside with ⟨hc, hs⟩ | ⟨c, hc, ht⟩
    · rw [hc]
      exact .inl ⟨ite_self _, hs⟩
    · have other : c ≠ m := by
        rintro rfl
        rw [element?, content?_of_text? ht] at hm
        cases hm
      refine .inr ⟨c, ?_, ?_⟩
      · rw [hc, List.filter_cons_of_pos (by simpa using other), List.filter_nil, ite_self]
      · rw [text?, content]
        exact ht

/-- Style sheets that are removed leave a text alone. -/
theorem OnlyText.removeStylesheet (h : OnlyText d n s) (id : String) : OnlyText (d.removeStylesheet id) n s := by
  have removed : ∀ (k : Nat) (d : Document), OnlyText d n s → OnlyText (d.removeById id k) n s := by
    intro k
    induction k with
    | zero => exact fun _ h => h
    | succ k ih =>
      intro d h
      unfold removeById
      split
      · exact h
      · rename_i m hm
        obtain ⟨e, he, -⟩ := Option.bind_eq_some_iff.1 (carries_of_byId? hm).2
        exact ih _ (h.detach (he ▸ rfl))
  exact removed _ d h

/-- A text is put in place of everything that was inside. -/
theorem onlyText_setTextContent (hd : d.Rooted) (hn : (d.element? n).isSome) (s : String) :
    OnlyText (d.setTextContent n s) n s := by
  have content : ∀ (ns : List NodeId) (d : Document) (c : NodeId),
      (ns.foldl Document.detach d).nodes.content? c = d.nodes.content? c := by
    intro ns d c
    refine Forest.foldl_reading (r := fun d : Document => d.nodes.content? c) (fun d m => ?_) ns d
    rw [nodes_detach, Forest.content?_detach]
  -- every child is taken out in turn; the set of those left only gets smaller
  have emptied : ∀ (ns : List NodeId) (d : Document), d.Rooted → d.nodes.children n ⊆ ns →
      (ns.foldl Document.detach d).nodes.children n = [] := by
    intro ns
    induction ns with
    | nil => exact fun d _ hsub => List.subset_nil.1 hsub
    | cons m ns ih =>
      intro d hd hsub
      refine ih _ (hd.detach m) fun c hc => ?_
      rw [nodes_detach] at hc
      have child := (Forest.mem_children_detach hc).1
      refine (List.mem_cons.1 (hsub child)).resolve_left fun hcm => ?_
      exact Forest.not_mem_children_detach hd.linked m n (hcm ▸ hc)
  obtain ⟨e, he⟩ := Option.isSome_iff_exists.1 hn
  have empty := emptied (d.nodes.children n) d hd (List.Subset.refl _)
  have isElement : (((d.nodes.children n).foldl Document.detach d).element? n).isSome := by
    rw [element?, content]
    exact hn
  unfold setTextContent
  dsimp only
  generalize (d.nodes.children n).foldl Document.detach d = d₁ at empty isElement ⊢
  split
  · rename_i hs
    exact ⟨isElement, .inl ⟨empty, String.isEmpty_iff.1 hs⟩⟩
  · obtain ⟨e₁, he₁⟩ := Option.isSome_iff_exists.1 isElement
    have hlt : n < d₁.nodes.fresh := lt_fresh_of_element? he₁
    refine ⟨?_, .inr ⟨d₁.nodes.fresh, ?_, ?_⟩⟩
    · rw [element?, nodes_pushUnder, Forest.content?_pushUnder, if_neg (Nat.ne_of_lt hlt)]
      exact isElement
    · rw [nodes_pushUnder, Forest.children_pushUnder_self _ hlt, empty]
      rfl
    · rw [text?, nodes_pushUnder, Forest.content?_pushUnder, if_pos rfl]
      rfl

/-- The text that an element had before it was edited is its text again. -/
theorem textContent_undressed (hd : d.Rooted) {s : EditorState NodeId} {x : Session NodeId} (hx : s.session = some x)
    (hn : (d.element? x.element).isSome) : (d.undressed s).textContent x.element = x.openingText := by
  have written := onlyText_setTextContent hd hn x.openingText
  have unedited : OnlyText (d.unedited false s.session) x.element x.openingText := by
    rw [hx]
    exact (written.setAttribute x.element Overlay.editableAttribute none).setAttribute x.element
      Overlay.editingAttribute none
  have unmarked := (((unedited.setBodyCursor none).setBodyAttribute Overlay.savingAttribute none).released
    s.selection).unhovered s.hover
  exact ((unmarked.removeStylesheet Overlay.stylesId).removeStylesheet Overlay.scrollId).textContent

/-- The inline style that an element had when it was selected is its inline style again. -/
theorem style_undressed (hd : d.Rooted) {s : EditorState NodeId}
    (hs : ∀ y, s.session = some y → (d.element? y.element).isSome) {x : Selection NodeId} (hx : s.selection = some x)
    (hn : (d.element? x.element).isSome) : (d.undressed s).attribute? x.element "style" = x.unmarkedStyle := by
  let d₁ := ((d.unedited false s.session).setBodyCursor none).setBodyAttribute Overlay.savingAttribute none
  have before : AddsNothing (fun _ => False) d d₁ :=
    ((addsNothing_unedited hd false s.session fun y hy => ⟨hs y hy, fun c => c.places.elim⟩).trans
      (addsNothing_setBodyCursor _ none)).trans (addsNothing_dropBodyAttribute _ (by decide))
  have put : (d₁.released s.selection).attribute? x.element "style" = x.unmarkedStyle := by
    rw [hx, released, attribute?_setAttribute, if_pos]
    exact ⟨rfl, rfl, (isSome_element?_modifyElement d₁ _ _ _).trans (before.elements _ hn)⟩
  have unhovered : ((d₁.released s.selection).unhovered s.hover).attribute? x.element "style" = x.unmarkedStyle := by
    rw [← put]
    cases s.hover with
    | none => rfl
    | some n =>
      rw [Document.unhovered, attribute?_setAttribute, if_neg fun same => absurd same.2.1 (by decide),
        attribute?_setAttribute, if_neg fun same => absurd same.2.1 (by decide)]
  unfold attribute? at unhovered ⊢
  rw [undressed, element?_removeStylesheet, element?_removeStylesheet]
  exact unhovered

end InPlace.Browser.Document

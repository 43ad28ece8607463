import InPlace.Proofs.Editing.HoverMarks
import InPlace.Proofs.Editing.Marks
import InPlace.Proofs.Editing.Modes
import InPlace.Proofs.Headless.Text
import InPlace.Proofs.Page.Climbs

/-!
# What a deletion leaves

The host deletes the selected element. Afterwards nothing is selected and nothing is edited, and no node has a mark of a
selection or of an edit. A hover inside of the element ends as well, with its mark, but for one case: the edit of the
element ends first, which puts a text in place of everything inside, and then a hovered node that was inside is not found
there any more. It stays hovered and marked (`Freed.overlooked`, `overlooked_hover`).

Main statement: `deletion_run`.
-/

namespace InPlace

open Headless (Document Part)

/-- What leaves some parts of the document alone leaves fewer of them alone. -/
theorem Step.Spares.mono {ps qs : List Part} {x : Step} (h : x.Spares qs) (sub : ps ⊆ qs) : x.Spares ps := by
  cases x with
  | page x => exact fun p hp => h p (sub hp)
  | clock time => trivial
  | channel failing => trivial
  | operate o => trivial

namespace Editor

variable {e : HeadlessEditor} {n m : NodeId} {xs : List Step}

/-- What is left of the holdings of an editor after the deletion of an element. -/
structure Freed (n : NodeId) (e e' : HeadlessEditor) : Prop where
  selection : e'.state.selection = none
  session : e'.state.session = none
  selected : ∀ m, e'.page.document.attribute? m Overlay.selectedAttribute = none
  editing : ∀ m, e'.page.document.attribute? m Overlay.editingAttribute = none
  editable : ∀ m, e'.page.document.attribute? m Overlay.editableAttribute = none
  hover : ∀ m, e'.state.hover = some m ↔
    e.state.hover = some m ∧ (e.unedited n).contains n m = false
  /-- A hover inside of the element ends, if the element was not edited or was hovered itself. -/
  overlooked : ∀ m, e.contains n m = true → e'.state.hover = some m →
    e.state.editing? = some n ∧ m ≠ n

/-! ## The hover -/

/-- A deletion lets go of a hover that is inside of the element once the element is not edited any more. -/
theorem hover_letGo_iff (e : HeadlessEditor) (n m : NodeId) :
    (e.letGo n).state.hover = some m ↔
      e.state.hover = some m ∧ (e.unedited n).contains n m = false := by
  have kept := (sameHover_unedited e n).hover
  rw [letGo_eq]
  cases hover : (e.unedited n).state.hover with
  | none =>
    rw [← kept, hover]
    simp [hover]
  | some k =>
    rw [← kept, hover, Option.any_some]
    cases inside : (e.unedited n).contains n k with
    | true =>
      rw [if_pos rfl, hover_clearHover]
      constructor
      · exact fun h => absurd h (by simp)
      · rintro ⟨h, outside⟩
        rw [← Option.some.inj h, inside] at outside
        cases outside
    | false =>
      rw [if_neg Bool.false_ne_true, hover]
      refine ⟨fun h => ⟨h, ?_⟩, And.left⟩
      rw [← Option.some.inj h, inside]

/-- A node of the document is inside of itself. -/
theorem contains_self (h : (e.page.document.element? n).isSome) : e.contains n n = true := by
  obtain ⟨el, hel⟩ := Option.isSome_iff_exists.1 h
  exact Forest.isWithin_self (Forest.lt_fresh_of_content? (Document.content?_of_element? hel))

/-- While an element is not edited, a hover inside of it is found; a hover of the element itself always is. -/
theorem overlooked_of_outside (h : (e.page.document.element? n).isSome) (inside : e.contains n m = true)
    (outside : (e.unedited n).contains n m = false) : e.state.editing? = some n ∧ m ≠ n := by
  constructor
  · by_contra idle
    rw [unedited, if_neg idle, inside] at outside
    cases outside
  · rintro rfl
    have kept : ((e.unedited m).page.document.element? m).isSome := by
      unfold unedited
      split
      · exact (endEdit_only e false).elements m h
      · exact h
    rw [contains_self kept] at outside
    cases outside

/-! ## Deletions -/

/-- A command that was applied has deleted the selected element. -/
theorem deleteElement_of_applied (h : (e.handleCommand .deleteElement).2 = .applied) :
    ∃ n page, e.state.selected? = some n ∧ Page.remove? (e.letGo n).page n = some page ∧
      (e.handleCommand .deleteElement).1 = (e.letGo n).dropped n page := by
  unfold handleCommand withSelected at h ⊢
  cases hn : e.state.selected? with
  | none =>
    rw [hn] at h
    cases h
  | some n =>
    rw [hn] at h
    dsimp only at h ⊢
    rcases deleteElement_answers e n with heq | ⟨page, hp, heq⟩
    · rw [heq] at h
      cases h
    · rw [heq]
      exact ⟨n, page, rfl, hp, rfl⟩

/-- A deletion frees the editor of the element, where the marks and the state were in order. -/
theorem freed_of_applied (marks : MarksExact e) (coherent : Coherent e.state)
    (h : (e.handleCommand .deleteElement).2 = .applied) :
    ∃ n, e.state.selected? = some n ∧ Freed n e (e.handleCommand .deleteElement).1 := by
  obtain ⟨n, page, hn, hp, heq⟩ := deleteElement_of_applied h
  have dropped := dropped_only hp
  -- what is edited is selected, so the edit that may be open is one of this element
  have edited : e.state.session = none ∨ e.state.editing? = some n := by
    cases hs : e.state.session with
    | none => exact .inl rfl
    | some t =>
      have same : some t.element = some n := (coherent.session t hs).symm.trans hn
      exact .inr ((congrArg (Option.map Session.element) hs).trans same)
  have selection : ((e.letGo n).dropped n page).state.selection = none := rfl
  have session : ((e.letGo n).dropped n page).state.session = none :=
    (dropped.session_eq (by decide)).trans (session_letGo edited)
  have hover : ∀ m, ((e.letGo n).dropped n page).state.hover = some m ↔
      e.state.hover = some m ∧ (e.unedited n).contains n m = false := by
    intro m
    rw [dropped.hover_eq (by decide)]
    exact hover_letGo_iff e n m
  have left : MarksExact ((e.letGo n).dropped n page) := by
    rw [← heq]
    exact marksExact_kept.handleCommand .deleteElement marks
  have bare : ∀ {name n?}, Marks name n? ((e.letGo n).dropped n page).page.document → n? = none →
      ∀ m, ((e.letGo n).dropped n page).page.document.attribute? m name = none := by
    intro name n? exact hnone m
    rw [← Option.not_isSome_iff_eq_none, exact m, hnone]
    simp
  have element : (e.page.document.element? n).isSome := by
    have marked := (marks.selected n).2 hn
    obtain ⟨value, hvalue⟩ := Option.isSome_iff_exists.1 marked
    obtain ⟨el, hel, -⟩ := Option.bind_eq_some_iff.1 hvalue
    exact Option.isSome_iff_exists.2 ⟨el, hel⟩
  rw [heq]
  refine ⟨n, hn, selection, session, bare left.selected (congrArg (Option.map _) selection),
    bare left.editing (congrArg (Option.map _) session),
    bare left.editable (congrArg (Option.map _) session), hover, ?_⟩
  intro m inside hovered
  exact overlooked_of_outside element inside ((hover m).1 hovered).2

/-! ## Runs -/

/-- Without news of changed elements no node is stranded. -/
theorem not_stranded (h : .operate .contentChanged ∉ xs) : ¬ e.Stranded xs n := by
  rintro ⟨before, x, after, rfl, ⟨rfl, -, -⟩, -⟩
  exact h (by simp)

/-- Whatever the page moves and edits, as long as it writes no marks itself and edits begin only where the user begins
them: a deletion that is applied leaves nothing selected, nothing edited and no mark of either. It leaves nothing inside
of the element hovered or marked as hovered, unless the element was edited, and a node below it hovered. Nodes that the
news of changed elements has stranded stay marked. -/
theorem deletion_run {d : Document} (unmarked : Unmarked d) (config : EditorConfig) (time : String)
    (unhovered : ∀ n, ¬ (new d config time).HoverMarked n)
    (hx : ∀ x ∈ xs, x.Spares (markParts ++ hoverParts)) (ho : ∀ n, .operate (.startEdit n) ∉ xs)
    (applied : (((new d config time).run xs).handleCommand .deleteElement).2 = .applied) :
    let e := (new d config time).run xs
    let e' := (e.handleCommand .deleteElement).1
    (∃ n, e.state.selected? = some n ∧ Freed n e e') ∧
      (∀ m, e'.HoverMarked m ↔ e'.state.hover = some m ∨
        (new d config time).Stranded (xs ++ [.operate (.command .deleteElement)]) m) ∧
      (.operate .contentChanged ∉ xs → ∀ m, e'.HoverMarked m ↔ e'.state.hover = some m) := by
  intro e e'
  have marks : MarksExact e :=
    marksExact_run unmarked config time fun x hin => (hx x hin).mono (List.subset_append_left _ _)
  have deleted : (new d config time).run (xs ++ [.operate (.command .deleteElement)]) = e' :=
    run_append _ xs _
  have spared : ∀ x ∈ xs ++ [.operate (.command .deleteElement)], x.Spares hoverParts := by
    refine List.forall_mem_append.2 ⟨fun x hin => (hx x hin).mono (List.subset_append_right _ _), ?_⟩
    simp [Step.Spares]
  have hovers := (hoverMarks_run d config time unhovered spared).1
  rw [deleted] at hovers
  refine ⟨freed_of_applied marks (coherent_run d config time ho) applied, hovers, ?_⟩
  intro unheard m
  have free : ¬ (new d config time).Stranded (xs ++ [.operate (.command .deleteElement)]) m :=
    not_stranded (by simpa using unheard)
  rw [hovers m]
  exact or_iff_left free

/-- A section is selected and a paragraph inside of it hovered. -/
def hoveredInside : List Step :=
  [.page (.appendIdentified 0 "section" "a.tsx:1:0"), .page (.appendIdentified 1 "p" "a.tsx:2:2"),
    .operate (.setMode .enabled), .operate (.event (.click 1)), .operate (.event (.pointerOver 2))]

/-- The section has no text of its own and is not edited, so the hover ends with it. -/
theorem deletion_run_section : let e := (new .empty {} "").run hoveredInside
    e.state.hover = some 2 ∧ ¬ (e.handleCommand .deleteElement).1.HoverMarked 2 := by
  have bare : ∀ n, ¬ (new .empty {} "").HoverMarked n := by
    rintro n (marked | marked)
    · simp [new, Document.attribute?_empty] at marked
    · simp [new, Document.attribute?_empty] at marked
  have idle : ((new .empty {} "").run hoveredInside).state.session.isNone = true := by decide +kernel
  have inside : ((new .empty {} "").run hoveredInside).contains 1 2 = true := by decide +kernel
  have selected : ((new .empty {} "").run hoveredInside).state.selected? = some 1 := by decide +kernel
  obtain ⟨⟨n, hn, freed⟩, -, marked⟩ := @deletion_run hoveredInside .empty unmarked_empty {} "" bare
    (by decide) (by simp [hoveredInside]) (by decide +kernel)
  refine ⟨by decide +kernel, fun still => ?_⟩
  have same : n = 1 := Option.some.inj (hn.symm.trans selected)
  subst same
  have hovered := (marked (by simp [hoveredInside]) 2).1 still
  have edited := (freed.overlooked 2 inside hovered).1
  rw [EditorState.editing?, Option.isNone_iff_eq_none.1 idle] at edited
  cases edited

/-- An element with a text of its own is selected by a click, which opens the edit of the text, and an element inside of
it is hovered. -/
def hoveredInEdited : List Step :=
  [.page (.appendIdentified 0 "p" "a.tsx:1:0"), .page (.appendText 1 "Hi "),
    .page (.appendIdentified 1 "b" "a.tsx:1:6"), .operate (.setMode .enabled), .operate (.event (.click 1)),
    .operate (.event (.pointerOver 3))]

/-- The deletion is applied, and the element that was inside stays hovered and marked. -/
theorem overlooked_hover : let e := (new .empty {} "").run hoveredInEdited
    e.state.selected? = some 1 ∧ e.contains 1 3 = true ∧
      (e.handleCommand .deleteElement).2 = .applied ∧
      (e.handleCommand .deleteElement).1.state.hover = some 3 ∧
      (e.handleCommand .deleteElement).1.page.document.attribute? 3 Overlay.hoveredAttribute = some "true" := by
  decide +kernel

end Editor

end InPlace

import InPlace.Proofs.Editing.Deletions
import InPlace.Proofs.Editing.References
import InPlace.Proofs.Editing.Styling
import InPlace.Proofs.Headless.Excisions

/-!
# Nothing but the selected element is deleted

A deletion ends the edit of the selected element, lets go of a hover inside of it, and takes it out. What it changes on
the way is within the element, so all other nodes stay what and where they are, and the elements with an identity are
found in the order that they had (`Excision`). The host hears of the end of the edit, if there was one, and of nothing
else.

That nothing outside is touched needs the tree under the editor to be in order, and the selected element to be another
one than the body; both hold in every run (`Anchored`). The elements are looked for from the body. Where the page has
put the body itself inside of the selected element they are all found after the deletion as before (`buried_body`).

Main statement: `excision_run`.
-/

namespace InPlace

open Headless (Document PageEdit)
open Headless.Document (body)

/-- The nodes that a step moves, and those under which it puts others. -/
def Step.hangs : Step → List NodeId
  | page x => x.hangs
  | _ => []

namespace Editor

variable {e : HeadlessEditor} {n m : NodeId} {x : Step} {xs : List Step}

/-- Whatever the steps of a run move or put others under are nodes of the document then. -/
def HangsNodes (e : HeadlessEditor) : List Step → Prop
  | [] => True
  | x :: xs => (∀ n ∈ x.hangs, n < e.page.document.nodes.fresh) ∧ (e.step x).HangsNodes xs

instance decidableHangsNodes (e : HeadlessEditor) : (xs : List Step) → Decidable (e.HangsNodes xs)
  | [] => isTrue trivial
  | x :: xs =>
    have := decidableHangsNodes (e.step x) xs
    inferInstanceAs (Decidable (_ ∧ _))

/-! ## Editors in order -/

/-- The tree is in order, the state agrees with itself, and the selected element is an element and not the body. -/
structure Anchored (e : HeadlessEditor) : Prop where
  linked : e.page.document.nodes.Linked
  placed : e.page.document.nodes.Placed
  coherent : Coherent e.state
  selected : ∀ n, e.state.selected? = some n → n ≠ body ∧ (e.page.document.element? n).isSome

/-- What is found to have an identity is not the body. -/
theorem ne_body_of_identified? {target : NodeId} (h : e.identified? target = some n) : n ≠ body := by
  have inside := List.mem_takeWhile_imp (List.mem_of_find?_eq_some h)
  rintro rfl
  exact absurd (show (!(body == body)) = true from inside) (by decide)

namespace Anchored

theorem lt_fresh (a : Anchored e) (hn : e.state.selected? = some n) : n < e.page.document.nodes.fresh := by
  obtain ⟨el, hel⟩ := Option.isSome_iff_exists.1 (a.selected n hn).2
  exact Forest.lt_fresh_of_content? (Document.content?_of_element? hel)

/-- What is edited is selected, so the editor holds nodes of the document. -/
theorem holdsOnly (a : Anchored e) : HoldsOnly (· < e.page.document.nodes.fresh) e where
  selected _ hn := a.lt_fresh hn
  edited s hs := a.lt_fresh (a.coherent.session s hs)

/-- The selected element is never the body, and is there when it is selected. -/
theorem selected_step (a : Anchored e) (x : Step) (n : NodeId) (hn : (e.step x).state.selected? = some n) :
    n ≠ body ∧ ((e.step x).page.document.element? n).isSome := by
  have kept : (e.step x).state.selection = e.state.selection →
      n ≠ body ∧ ((e.step x).page.document.element? n).isSome := by
    intro same
    obtain ⟨other, element⟩ := a.selected n ((congrArg (Option.map Selection.element) same).symm.trans hn)
    exact ⟨other, isSome_element?_step e x element⟩
  have gone : (e.step x).state.selection ≠ none := by
    intro none
    rw [EditorState.selected?, none] at hn
    cases hn
  cases restyling_step e x with
  | edited _ same _ => exact kept same
  | kept steady => exact kept steady.selection
  | tried _ _ same _ => exact kept same
  | released released => exact absurd released.gone gone
  | deleted _ none _ => exact absurd none gone
  | chosen _ chooses chosen =>
    rw [EditorState.selected?, chosen.selection] at hn
    obtain rfl := Option.some.inj hn
    exact ⟨ne_body_of_identified? chooses.identified, chosen.there⟩

/-- A step keeps the editor in order, if it hangs only nodes of the document and does not begin an edit elsewhere. -/
theorem step (a : Anchored e) (hx : ∀ n ∈ x.hangs, n < e.page.document.nodes.fresh)
    (ho : ∀ n, x ≠ .operate (.startEdit n)) : Anchored (e.step x) := by
  have selected := a.selected_step x
  cases x with
  | page y =>
    exact ⟨PageEdit.apply_linked a.linked (PageEdit.movesNode_of_hangs hx), PageEdit.apply_placed a.placed hx,
      a.coherent, selected⟩
  | clock time => exact ⟨a.linked, a.placed, a.coherent, selected⟩
  | channel failing => exact ⟨a.linked, a.placed, a.coherent, selected⟩
  | operate o =>
    have coherent : Coherent (e.operate o).state :=
      coherent_operate (fun n hn => ho n (congrArg Step.operate hn)) a.coherent
    -- the document only grows, so what the editor holds at first are nodes whenever it writes a text
    have placing : TreeKeptAt (· < e.page.document.nodes.fresh)
        fun d => d.nodes.Placed ∧ e.page.document.nodes.fresh ≤ d.nodes.fresh :=
      { sameTree := fun same h => ⟨same.placed h.1, h.2.trans_eq same.fresh.symm⟩
        setTextContent := fun hn h s => ⟨Document.setTextContent_placed h.1 (hn.trans_le h.2) s,
          h.2.trans (Document.emptied_setTextContent _ _ s).fresh⟩
        remove := fun hd h => by
          refine ⟨Document.remove?_placed h.1 hd, h.2.trans_eq ?_⟩
          rw [Document.nodes_remove? hd, Forest.fresh_detach] }
    exact ⟨linked_treeKept.operate o a.linked,
      (placing.operate o a.holdsOnly ⟨a.placed, Nat.le_refl _⟩).1, coherent, selected⟩

end Anchored

/-- An editor is in order in every state of every run in which the page hangs only nodes of the document, and edits
begin only where the user begins them. -/
theorem anchored_run {d : Document} (linked : d.nodes.Linked) (placed : d.nodes.Placed) (config : EditorConfig)
    (time : String) (hangs : (new d config time).HangsNodes xs) (ho : ∀ n, .operate (.startEdit n) ∉ xs) :
    Anchored ((new d config time).run xs) := by
  have begun : Anchored (new d config time) :=
    ⟨linked, placed, @coherent_run d config time [] fun _ => List.not_mem_nil, fun _ h => by cases h⟩
  have steps : ∀ {xs} {e : HeadlessEditor}, Anchored e → e.HangsNodes xs → (∀ n, .operate (.startEdit n) ∉ xs) →
      Anchored (e.run xs) := by
    intro xs
    induction xs with
    | nil => exact fun a _ _ => a
    | cons x xs ih =>
      intro e a hangs ho
      rw [run_cons]
      refine ih (a.step hangs.1 fun n hx => ho n ?_) hangs.2 fun n hin => ho n (List.mem_cons_of_mem x hin)
      rw [hx]
      exact List.mem_cons_self
  exact steps begun hangs ho

/-! ## Before the element is taken out -/

/-- The document after an edit that is given up. -/
theorem document_endEdit_false {s : Session NodeId} (h : e.state.session = some s) :
    (e.endEdit false).page.document = ElementEvent.all.foldl (fun d l => d.unlistenTo s.element l)
      (((e.page.document.setTextContent s.element s.openingText).removeAttribute s.element
        Overlay.editableAttribute).removeAttribute s.element Overlay.editingAttribute) := by
  rw [endEdit_of_some h, reportEdit, document_tell]
  rfl

/-- To end the edit in a deleted element changes nothing outside of it. -/
theorem confined_unedited (a : Anchored e) (hn : e.state.selected? = some n) :
    Document.Confined n e.page.document (e.unedited n).page.document := by
  unfold unedited
  split
  · rename_i editing
    obtain ⟨s, hs, rfl⟩ := Option.map_eq_some_iff.1 editing
    have inside : ¬ e.page.document.Outside s.element s.element := fun outside => outside.ne rfl
    have emptied := Document.confined_setTextContent a.linked (a.lt_fresh hn) s.openingText
    have unmarked := (emptied.removeAttribute inside Overlay.editableAttribute (by decide)).removeAttribute inside
      Overlay.editingAttribute (by decide)
    rw [document_endEdit_false hs]
    exact unmarked.elementListeners _
  · exact .refl n _

/-- All that happens to the nodes before the element is taken out happens within it. -/
theorem confined_letGo (a : Anchored e) (hn : e.state.selected? = some n) :
    Document.Confined n e.page.document (e.letGo n).page.document := by
  have unedited := confined_unedited a hn
  rw [letGo_eq]
  split
  · rename_i held
    cases hover : (e.unedited n).state.hover with
    | none =>
      rw [hover] at held
      cases held
    | some k =>
      rw [hover, Option.any_some] at held
      have inside := unedited.isWithin a.placed (a.lt_fresh hn) held
      have unhovered := (unedited.removeAttribute inside Overlay.hoveredAttribute (by decide)).removeAttribute inside
        Overlay.fullWidthAttribute (by decide)
      rw [clearHover_of_some hover, if_neg Bool.false_ne_true]
      exact unhovered
  · exact unedited

/-- Beside the end of the edit only the hover and its marks may go. -/
theorem letGo_unedited_only (e : HeadlessEditor) (n : NodeId) :
    Only [.hover, .page (.attr Overlay.hoveredAttribute), .page (.attr Overlay.fullWidthAttribute)] (e.unedited n)
      (e.letGo n) := by
  rw [letGo_eq]
  split
  · cases hover : (e.unedited n).state.hover with
    | none =>
      rw [clearHover_of_none hover]
      exact .refl _ _
    | some k =>
      rw [clearHover_of_some hover, if_neg Bool.false_ne_true]
      exact unhover_only _ k
  · exact .refl _ _

/-- What the host hears of an edit that is given up, unless messages to it fail. -/
def cancellation (e : HeadlessEditor) : List Envelope :=
  if e.page.outbox.failing then []
  else e.state.session.toList.map fun s =>
    .ofNotice (.editEnded ⟨.cancelled, s.openingText, s.openingText, s.identity, false⟩) e.config.editorTag

/-- To cancel an edit sends the message about it and no other. -/
theorem sent_endEdit_false (e : HeadlessEditor) :
    (e.endEdit false).page.outbox.sent = e.page.outbox.sent ++ e.cancellation := by
  unfold cancellation
  cases hs : e.state.session with
  | none =>
    rw [endEdit_of_none hs]
    simp
  | some s =>
    cases failing : e.page.outbox.failing with
    | false => exact sent_endEdit hs failing false
    | true =>
      have settled := (settleText_only e s false).trans (unmarkEdited_only _ s.element)
      have logged := settled.trans (log_only ((e.settleText s false).unmarkEdited s.element) .debug
        "Inline edit ended" [("changed", toString (s.outcome (e.page.document.textContent s.element) false).changed)])
      rw [endEdit_of_some hs, reportEdit, tell_eq, if_pos ((logged.failing_eq (by decide)).trans failing), if_pos rfl,
        List.append_nil]
      exact logged.sent_eq (by decide)

/-- What is edited is selected, so the end of the edit of the selected element is the end of any edit. -/
theorem unedited_eq (a : Anchored e) (hn : e.state.selected? = some n) : e.unedited n = e.endEdit false := by
  unfold unedited
  split
  · rfl
  · rename_i idle
    cases hs : e.state.session with
    | none => rw [endEdit_of_none hs]
    | some s =>
      have same : some s.element = some n := (a.coherent.session s hs).symm.trans hn
      exact absurd ((congrArg (Option.map Session.element) hs).trans same) idle

/-- The registrations of an open edit are taken off its element. -/
theorem elementListeners_unedited (e : HeadlessEditor) (n m : NodeId) (l : ElementEvent) :
    (e.unedited n).page.document.elementListeners.count (m, l) =
      e.page.document.elementListeners.count (m, l) - if e.state.editing? = some n ∧ m = n then 1 else 0 := by
  unfold unedited
  split
  · rename_i editing
    obtain ⟨s, hs, rfl⟩ := Option.map_eq_some_iff.1 editing
    have settled := settleText_only e s false
    have before := (settled.trans (removeAttribute_only _ s.element Overlay.editableAttribute)).trans
      (removeAttribute_only _ s.element Overlay.editingAttribute)
    have erased : (e.endEdit false).page.document.elementListeners =
        ElementEvent.all.foldl (fun ls l => ls.erase (s.element, l)) e.page.document.elementListeners := by
      rw [document_endEdit_false hs, ← before.elementListeners_eq (by decide)]
      rfl
    rw [erased, count_foldl_erase_pair]
    by_cases hm : m = s.element
    · rw [if_pos hm.symm, if_pos ⟨editing, hm⟩]
    · rw [if_neg (Ne.symm hm), if_neg fun h => hm h.2, Nat.sub_zero]
  · rename_i idle
    rw [if_neg fun h => idle h.1, Nat.sub_zero]

/-! ## The deletion -/

/-- The second editor differs from the first in that the element has been deleted. -/
structure Excision (n : NodeId) (e e' : HeadlessEditor) : Prop where
  document : Document.Excised n e.page.document e'.page.document
  /-- An edit of the element takes its own registrations along, one for each event. -/
  elementListeners : ∀ m l, e'.page.document.elementListeners.count (m, l) =
    e.page.document.elementListeners.count (m, l) - if e.state.editing? = some n ∧ m = n then 1 else 0
  mode : e'.state.mode = e.state.mode
  listening : e'.state.listening = e.state.listening
  sent : e'.page.outbox.sent = e.page.outbox.sent ++ e.cancellation

/-- A deletion that was applied has deleted the selected element and has changed nothing else. -/
theorem Anchored.excision (a : Anchored e) (h : (e.handleCommand .deleteElement).2 = .applied) :
    ∃ n, e.state.selected? = some n ∧ Excision n e (e.handleCommand .deleteElement).1 := by
  obtain ⟨n, page, hn, hp, heq⟩ := deleteElement_of_applied h
  obtain ⟨-, removed⟩ := remove?_eq_some hp
  have linked : (e.letGo n).page.document.nodes.Linked :=
    linked_treeKept.at.letGo n ⟨fun _ _ => trivial, fun _ _ => trivial⟩ a.linked
  have letGo := (letGo_only e n).trans (dropped_only hp)
  have after := (letGo_unedited_only e n).trans (dropped_only hp)
  rw [heq]
  refine ⟨n, hn, ?_, fun m l => ?_, letGo.mode_eq (by decide), letGo.listening_eq (by decide), ?_⟩
  · exact (confined_letGo a hn).excised a.linked linked (a.lt_fresh hn) (a.selected n hn).1 removed (by decide)
  · rw [after.elementListeners_eq (by decide)]
    exact elementListeners_unedited e n m l
  · rw [after.sent_eq (by decide), unedited_eq a hn, sent_endEdit_false]

/-! ## Runs -/

/-- In every run in which the page hangs only nodes of its document, and edits begin only where the user begins them: a
deletion that is applied takes the selected element and what is below it out of the document and changes nothing else
there. The host hears at most of one edit that was given up. -/
theorem excision_run {d : Document} (linked : d.nodes.Linked) (placed : d.nodes.Placed) (config : EditorConfig)
    (time : String) (hangs : (new d config time).HangsNodes xs) (ho : ∀ n, .operate (.startEdit n) ∉ xs)
    (applied : (((new d config time).run xs).handleCommand .deleteElement).2 = .applied) :
    let e := (new d config time).run xs
    ∃ n, e.state.selected? = some n ∧ Excision n e (e.handleCommand .deleteElement).1 :=
  (anchored_run linked placed config time hangs ho).excision applied

/-- A paragraph with another element in it, whose text is edited, and a paragraph beside it. -/
def editedBeside : List Step :=
  [.page (.appendIdentified 0 "p" "a.tsx:1:0"), .page (.appendText 1 "Hi "),
    .page (.appendIdentified 1 "b" "a.tsx:1:6"), .page (.appendIdentified 0 "p" "a.tsx:2:0"),
    .operate (.setMode .enabled), .operate (.event (.click 1))]

theorem excision_run_paragraph :
    let e := (new .empty {} "").run editedBeside
    let e' := (e.handleCommand .deleteElement).1
    e.page.document.identified = [1, 3, 4] ∧ e'.page.document.identified = [4] ∧
      e'.page.document.nodes.children 0 = [4] ∧ e'.page.outbox.sent.length = e.page.outbox.sent.length + 1 := by
  intro e e'
  have selected : e.state.selected? = some 1 := by decide +kernel
  obtain ⟨n, hn, excision⟩ := @excision_run editedBeside .empty Document.empty_linked Document.empty_placed {} ""
    (by decide +kernel) (by simp [editedBeside]) (by decide +kernel)
  obtain rfl : n = 1 := Option.some.inj (hn.symm.trans selected)
  have top : e.page.document.nodes.parent? 0 = none := by decide +kernel
  have beside : e.page.document.Outside 1 0 := ⟨by decide +kernel, by decide +kernel⟩
  refine ⟨by decide +kernel, ?_, ?_, ?_⟩
  · rw [excision.document.identified (Forest.not_loops_of_parent? top)]
    decide +kernel
  · rw [excision.document.children 0 beside]
    decide +kernel
  · rw [excision.sent, List.length_append]
    decide +kernel

/-- The page puts its body into a section that was not in the body. -/
def buriedBody : List Step :=
  [.page (.createElement "div"), .page (.appendIdentified 1 "section" "a.tsx:1:0"),
    .page (.appendIdentified 0 "p" "a.tsx:2:0"), .page (.appendChild 2 0), .operate (.setMode .enabled),
    .operate (.event (.click 2))]

/-- A paragraph whose text is edited. -/
def editedAlone : List Step :=
  [.page (.appendIdentified 0 "p" "a.tsx:1:0"), .page (.appendText 1 "Hi"), .operate (.setMode .enabled),
    .operate (.event (.click 1))]

/-- A paragraph in a body that is inside of the deleted section is found after the deletion as before. The listeners of
an edit of the deleted element go with the edit. -/
theorem buried_body :
    let e := (new .empty {} "").run buriedBody
    let edited := (new .empty {} "").run editedAlone
    (e.state.selected? = some 2 ∧ e.page.document.nodes.isWithin 2 3 = true ∧
      (e.handleCommand .deleteElement).2 = .applied ∧ e.page.document.identified = [3] ∧
      (e.handleCommand .deleteElement).1.page.document.identified = [3]) ∧
      (edited.handleCommand .deleteElement).2 = .applied ∧
      edited.page.document.elementListeners.count (1, .blur) = 1 ∧
      (edited.handleCommand .deleteElement).1.page.document.elementListeners.count (1, .blur) = 0 := by
  decide +kernel

end Editor

end InPlace

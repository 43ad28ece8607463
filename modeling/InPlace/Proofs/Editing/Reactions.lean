import InPlace.Proofs.Editing.Footprints

/-!
# Reactions

What the editor does when the host commands something or when something happens in the page. Each reaction
goes one of a few ways (`deleteElement_cases`, `click_cases`), composed of the functions whose footprints are
known; so the footprint of the reaction is known too.

Main statements: `handleCommand_only` and `handleEvent_only`.
-/

namespace InPlace.Editor

open Headless (Document Part)

/-! ## Commands of the host -/

theorem updateText_only (e : HeadlessEditor) (n : NodeId) (text : String) :
    Only [.page .tree] e (e.updateText n text) :=
  onDocument_only [.tree] e (fun d => d.setTextContent n text) (Document.setTextContent_only _ n text)

theorem updateStyles_only (e : HeadlessEditor) (n : NodeId) (styles : List (String × String)) :
    Only [.page (.attr "style")] e (e.updateStyles n styles) := by
  have styled : ∀ (e : HeadlessEditor) (s : String × String), Only [.page (.attr "style")] e
      (e.tryPage (fun page => Page.setStyle page n s.1 s.2) "Failed to apply style"
        [("property", s.1)]) := fun e s =>
    tryPage_only [.attr "style"] e (fun d => d.setStyle n s.1 s.2) _ _ fun _ h =>
      Document.setStyle_only h
  exact foldl_only styled styles e

theorem updateClasses_only (e : HeadlessEditor) (n : NodeId) (changes : ClassChanges) :
    Only [.page (.attr "class")] e (e.updateClasses n changes) := by
  have removed : ∀ (e : HeadlessEditor) (c : String), Only [.page (.attr "class")] e
      (e.tryPage (fun page => Page.removeClass page n c) "Failed to remove class"
        [("class", c)]) := fun e c =>
    tryPage_only [.attr "class"] e (fun d => d.removeClass n c) _ _ fun _ h =>
      Document.removeClass_only h
  have added : ∀ (e : HeadlessEditor) (c : String), Only [.page (.attr "class")] e
      (e.tryPage (fun page => Page.addClass page n c) "Failed to add class"
        [("class", c)]) := fun e c =>
    tryPage_only [.attr "class"] e (fun d => d.addClass n c) _ _ fun _ h =>
      Document.addClass_only h
  unfold updateClasses
  exact ((foldl_only removed changes.remove e).trans (foldl_only added changes.add _)).mono (by decide)

theorem remove?_eq_some {page page' : Headless} {n : NodeId} (h : Page.remove? page n = some page') :
    page'.outbox = page.outbox ∧ page.document.remove? n = some page'.document := by
  change (page.document.remove? n).map _ = some page' at h
  obtain ⟨d, hd, rfl⟩ := Option.map_eq_some_iff.1 h
  exact ⟨rfl, hd⟩

/-- The editor that does not edit this element any more. -/
def unedited (e : HeadlessEditor) (n : NodeId) : HeadlessEditor :=
  if e.state.editing? = some n then e.endEdit false else e

theorem letGo_eq (e : HeadlessEditor) (n : NodeId) : e.letGo n =
    if (e.unedited n).state.hover.any ((e.unedited n).contains n) then (e.unedited n).clearHover false
    else e.unedited n :=
  rfl

/-- Before a deletion the edit of the element ends, and then a hover inside of it does. -/
theorem letGo_cases (e : HeadlessEditor) (n : NodeId) :
    (e.state.editing? = some n ∧
      (e.letGo n = e.endEdit false ∨ e.letGo n = (e.endEdit false).clearHover false)) ∨
    (e.state.editing? ≠ some n ∧ (e.letGo n = e ∨ e.letGo n = e.clearHover false)) := by
  have hovered : ∀ e' : HeadlessEditor,
      (if e'.state.hover.any (e'.contains n) then e'.clearHover false else e') = e' ∨
        (if e'.state.hover.any (e'.contains n) then e'.clearHover false else e') =
          e'.clearHover false := by
    intro e'
    split
    · exact .inr rfl
    · exact .inl rfl
  unfold letGo
  by_cases h : e.state.editing? = some n
  · rw [if_pos h]
    exact .inl ⟨h, hovered _⟩
  · rw [if_neg h]
    exact .inr ⟨h, hovered e⟩

/-- Where the element is edited, the edit ends first. -/
theorem letGo_of_editing {e : HeadlessEditor} {n : NodeId} (h : e.state.editing? = some n) :
    Only hovering (e.endEdit false) (e.letGo n) := by
  rcases letGo_cases e n with ⟨-, heq | heq⟩ | ⟨hne, -⟩
  · rw [heq]
    exact .refl _ _
  · rw [heq]
    exact clearHover_only _ false
  · exact absurd h hne

/-- Where the element is not edited, no edit ends. -/
theorem letGo_of_not_editing {e : HeadlessEditor} {n : NodeId} (h : e.state.editing? ≠ some n) :
    Only hovering e (e.letGo n) := by
  rcases letGo_cases e n with ⟨hn, -⟩ | ⟨-, heq | heq⟩
  · exact absurd hn h
  · rw [heq]
    exact .refl _ _
  · rw [heq]
    exact clearHover_only e false

theorem letGo_only (e : HeadlessEditor) (n : NodeId) :
    Only (.page .tree :: (ending ++ hovering)) e (e.letGo n) := by
  by_cases h : e.state.editing? = some n
  · exact (endEdit_only e false).trans (letGo_of_editing h)
  · exact (letGo_of_not_editing h).mono (by decide)

/-- No edit is left where there was none, or one of the element that is to be deleted. -/
theorem session_letGo {e : HeadlessEditor} {n : NodeId}
    (h : e.state.session = none ∨ e.state.editing? = some n) : (e.letGo n).state.session = none := by
  by_cases hn : e.state.editing? = some n
  · exact ((letGo_of_editing hn).session_eq (by decide)).trans (session_endEdit e false)
  · exact ((letGo_of_not_editing hn).session_eq (by decide)).trans (h.resolve_right hn)

/-- The element that is to be deleted is no longer edited. -/
theorem editing?_letGo (e : HeadlessEditor) (n : NodeId) : (e.letGo n).state.editing? ≠ some n := by
  by_cases h : e.state.editing? = some n
  · rw [EditorState.editing?, session_letGo (.inr h)]
    simp
  · rw [EditorState.editing?, (letGo_of_not_editing h).session_eq (by decide)]
    exact h

/-- To let an element go keeps the hover or gives it up. -/
theorem hover_letGo (e : HeadlessEditor) (n : NodeId) :
    (e.letGo n).state.hover = e.state.hover ∨ (e.letGo n).state.hover = none := by
  rcases letGo_cases e n with ⟨-, h | h⟩ | ⟨-, h | h⟩
  · rw [h]
    exact .inl ((endEdit_only e false).hover_eq (by decide))
  · rw [h]
    exact .inr (hover_clearHover _ false)
  · rw [h]
    exact .inl rfl
  · rw [h]
    exact .inr (hover_clearHover _ false)

/-- The editor in the page without an element that was selected. -/
def dropped (e : HeadlessEditor) (n : NodeId) (page : Headless) : HeadlessEditor :=
  let e := (log { e with page } .debug "Deleted selected element" []).removeAttribute n
    Overlay.selectedAttribute
  { e with names := e.names.forget n, state := { e.state with selection := none } }

/-- A deletion lets go of what is inside the element. It is ignored if the element cannot be taken out. -/
theorem deleteElement_answers (e : HeadlessEditor) (n : NodeId) :
    e.deleteElement n = ((e.letGo n).log .warn "Selected element has no parent" [], .ignored) ∨
      ∃ page, Page.remove? (e.letGo n).page n = some page ∧
        e.deleteElement n = ((e.letGo n).dropped n page, .applied) := by
  unfold deleteElement
  dsimp only
  cases h : Page.remove? (e.letGo n).page n with
  | none => exact .inl rfl
  | some page => exact .inr ⟨page, rfl, rfl⟩

/-- A deletion lets go of what is inside the element, and takes the element out if it can. -/
theorem deleteElement_cases (e : HeadlessEditor) (n : NodeId) :
    (e.deleteElement n).1 = (e.letGo n).log .warn "Selected element has no parent" [] ∨
      ∃ page, Page.remove? (e.letGo n).page n = some page ∧
        (e.deleteElement n).1 = (e.letGo n).dropped n page := by
  rcases deleteElement_answers e n with h | ⟨page, hp, h⟩
  · rw [h]
    exact .inl rfl
  · rw [h]
    exact .inr ⟨page, hp, rfl⟩

/-- The element is out of the page and no longer selected. -/
theorem dropped_only {e : HeadlessEditor} {n : NodeId} {page : Headless}
    (h : Page.remove? e.page n = some page) :
    Only [.page .tree, .selection, .page (.attr Overlay.selectedAttribute)] e
      (e.dropped n page) := by
  obtain ⟨ho, hd⟩ := remove?_eq_some h
  have removed := only_of_document [.tree] ho (Document.remove?_only hd)
  have logged := removed.trans (log_only _ .debug "Deleted selected element" [])
  have unmarked := logged.trans (removeAttribute_only _ n Overlay.selectedAttribute)
  have forgotten := unmarked.trans (names_only _ (e.names.forget n))
  exact (forgotten.trans (selection_only _ none)).mono (by decide)

/-- A deletion touches the tree, edit, selection and hover. -/
theorem deleteElement_only (e : HeadlessEditor) (n : NodeId) :
    Only (.page .tree :: (ending ++ selecting ++ hovering)) e (e.deleteElement n).1 := by
  rcases deleteElement_cases e n with h | ⟨page, hp, h⟩
  · rw [h]
    exact ((letGo_only e n).trans (log_only _ _ _ _)).mono (by decide)
  · rw [h]
    exact ((letGo_only e n).trans (dropped_only hp)).mono (by decide)

theorem clearSelection_only (e : HeadlessEditor) :
    Only (.page .tree :: .told .cleared :: (ending ++ selecting)) e e.clearSelection :=
  (((endEdit_only e false).trans (releaseSelection_only _)).trans
    (tell_only _ .cleared rfl)).mono (by decide)

/-- What a command does to the selected element, if there is one. -/
theorem withSelected_induction {P : HeadlessEditor → Prop} {e : HeadlessEditor} (kind : String)
    {act : HeadlessEditor → NodeId → HeadlessEditor × Outcome}
    (hlog : e.state.selected? = none → ∀ level message fields, P (e.log level message fields))
    (hact : ∀ n, e.state.selected? = some n → P (act e n).1) : P (e.withSelected kind act).1 := by
  unfold withSelected
  cases h : e.state.selected? with
  | none => exact hlog h _ _ _
  | some n => exact hact n h

/-- The aspects that reactions other than changes of mode reach. -/
abbrev reacting : List Aspect :=
  .page .tree :: .page (.attr "class") :: .told .selection :: .told .cleared :: .told .text ::
    (ending ++ beginning ++ selecting ++ hovering)

/-- A command that does not set the mode touches what reactions do. -/
theorem handleCommand_only (e : HeadlessEditor) {c : Command} (h : ∀ m, c ≠ .setMode m) :
    Only reacting e (e.handleCommand c).1 := by
  have logged : e.state.selected? = none → ∀ level message fields,
      Only reacting e (e.log level message fields) :=
    fun _ _ _ _ => (log_only e _ _ _).mono (List.nil_subset _)
  cases c with
  | setMode m => exact absurd rfl (h m)
  | updateText text =>
    exact withSelected_induction _ logged fun n _ => (updateText_only e n text).mono (by decide)
  | updateStyles styles =>
    exact withSelected_induction _ logged fun n _ => (updateStyles_only e n styles).mono (by decide)
  | updateClasses changes =>
    exact withSelected_induction _ logged fun n _ => (updateClasses_only e n changes).mono (by decide)
  | deleteElement =>
    exact withSelected_induction _ logged fun n _ => (deleteElement_only e n).mono (by decide)
  | clearSelection => exact (clearSelection_only e).mono (by decide)

/-- A message is a command of the host, or it is dropped. -/
theorem receive_cases (e : HeadlessEditor) (data : Json) (fromParent : Bool) :
    (∃ r level message fields, (TrustPolicy.mk e.config.hostTag).accept data fromParent = .error r ∧
      (e.receive data fromParent).1 = e.log level message fields) ∨
    ∃ c, (TrustPolicy.mk e.config.hostTag).accept data fromParent = .ok c ∧
      (e.receive data fromParent).1 = (e.handleCommand c).1 := by
  unfold receive
  cases h : (TrustPolicy.mk e.config.hostTag).accept data fromParent with
  | ok c => exact .inr ⟨c, rfl, rfl⟩
  | error r =>
    refine .inl ⟨r, ?_⟩
    dsimp only
    split
    · exact ⟨_, _, _, rfl, rfl⟩
    · exact ⟨_, _, _, rfl, rfl⟩

/-- What becomes of a message, if it is what becomes of every command. -/
theorem receive_induction {P : HeadlessEditor → Prop} {e : HeadlessEditor} (data : Json)
    (fromParent : Bool) (hlog : ∀ level message fields, P (e.log level message fields))
    (hcommand : ∀ c, P (e.handleCommand c).1) : P (e.receive data fromParent).1 := by
  rcases receive_cases e data fromParent with ⟨-, level, message, fields, -, heq⟩ | ⟨c, -, heq⟩
  · rw [heq]
    exact hlog level message fields
  · rw [heq]
    exact hcommand c

/-! ## Events of the page -/

/-- What is found to have an identity is an element. -/
theorem element?_of_identified? {e : HeadlessEditor} {target n : NodeId}
    (h : e.identified? target = some n) : (e.page.document.element? n).isSome := by
  have marked : (e.page.document.attribute? n identityAttribute).isSome :=
    List.find?_some (p := fun a => (e.page.document.attribute? a identityAttribute).isSome) h
  exact Document.isSome_element?_of_attribute? marked

/-- The editor that has selected an element and told the host. -/
def chosen (e : HeadlessEditor) (n : NodeId) : HeadlessEditor :=
  ((e.metadata n).2.select n).tellAbout n true fun d => .selectionChanged (some d)

theorem chosen_only (e : HeadlessEditor) (n : NodeId) :
    Only (.outbox :: .told .selection :: selecting) e (e.chosen n) :=
  (((metadata_only e n).trans (select_only _ n)).trans (tellAbout_only _ n true .selection
    (fun d => .selectionChanged (some d)) fun _ => rfl)).mono (by decide)

theorem selected?_chosen (e : HeadlessEditor) (n : NodeId) :
    (e.chosen n).state.selected? = some n := by
  have told := tellAbout_only ((e.metadata n).2.select n) n true .selection
    (fun d => .selectionChanged (some d)) fun _ => rfl
  exact told.selected?_eq (by decide)

/-- A click on an element does nothing, or selects it, and then may begin to edit it. -/
theorem clickElement_cases {e : HeadlessEditor} (h : e.state.session = none) (n : NodeId) :
    e.clickElement n = (e.metadata n).2.log .trace "Clicked element is not editable" [] ∨
      e.clickElement n = e.chosen n ∨ e.clickElement n = (e.chosen n).beginEdit n := by
  have closed := ((chosen_only e n).session_eq (by decide)).trans h
  unfold clickElement
  dsimp only
  split
  · split
    · exact .inr (.inr (startEdit_of_none closed n))
    · exact .inr (.inl rfl)
  · exact .inl rfl

/-- Where nothing is edited, a click leaves the tree and its texts alone. -/
theorem clickElement_only {e : HeadlessEditor} (h : e.state.session = none) (n : NodeId) :
    Only (.told .selection :: (selecting ++ beginning)) e (e.clickElement n) := by
  rcases clickElement_cases h n with heq | heq | heq
  · rw [heq]
    exact ((metadata_only e n).trans (log_only _ _ _ _)).mono (by decide)
  · rw [heq]
    exact (chosen_only e n).mono (by decide)
  · rw [heq]
    exact ((chosen_only e n).trans (beginEdit_only _ n)).mono (by decide)

/-- Whether a click is the editor's: it is active, and the click is not in the edited text. -/
def heeds (e : HeadlessEditor) (target : NodeId) : Bool :=
  e.state.mode.isActive && !e.state.editing?.any fun n => e.contains n target

/-- A click that is the editor's ends the edit as the user left it, and goes on from there. -/
theorem click_cases (e : HeadlessEditor) (target : NodeId) :
    (e.heeds target = false ∧ (e.click target).1 = e) ∨
    (e.heeds target = true ∧
      ((e.click target).1 = (e.endEdit true).releaseSelection.tell (.selectionChanged none) ∨
        ∃ n, (e.endEdit true).identified? target = some n ∧
          (e.click target).1 = (e.endEdit true).clickElement n)) := by
  unfold click heeds
  by_cases ha : e.state.mode.isActive = true
  · rw [if_neg (by simp [ha])]
    split
    · rename_i hin
      exact .inl ⟨by simp [hin], rfl⟩
    · rename_i hout
      refine .inr ⟨by simp [ha, hout], ?_⟩
      dsimp only
      -- the target is looked up after the edit has ended
      cases h : (e.endEdit true).identified? target with
      | none => exact .inl rfl
      | some n => exact .inr ⟨n, rfl, rfl⟩
  · rw [if_pos (by simp [ha])]
    exact .inl ⟨by simp [ha], rfl⟩

/-- A click touches edits and the selection. -/
theorem click_only (e : HeadlessEditor) (target : NodeId) :
    Only (.told .selection :: (ending ++ beginning ++ selecting)) e (e.click target).1 := by
  have ended := endEdit_true_only e
  rcases click_cases e target with ⟨-, h⟩ | ⟨-, h | ⟨n, -, h⟩⟩
  · rw [h]
    exact .refl _ e
  · rw [h]
    have released := ended.trans (releaseSelection_only (e.endEdit true))
    exact (released.trans (tell_only _ .selection rfl)).mono (by decide)
  · rw [h]
    exact (ended.trans (clickElement_only (session_endEdit e true) n)).mono (by decide)

/-- What a click begins to edit it has selected. -/
theorem session_clickElement {e : HeadlessEditor} (h : e.state.session = none) {n : NodeId}
    {t : Session NodeId} (ht : (e.clickElement n).state.session = some t) :
    (e.clickElement n).state.selected? = some t.element := by
  have closed := ((chosen_only e n).session_eq (by decide)).trans h
  -- a session that is open after the click was begun by it, since the click found none
  rcases clickElement_cases h n with heq | heq | heq
  · have known := (metadata_only e n).trans (log_only _ .trace "Clicked element is not editable" [])
    rw [heq, known.session_eq (by decide), h] at ht
    simp at ht
  · rw [heq, closed] at ht
    simp at ht
  · rw [heq] at ht ⊢
    have selected : ((e.chosen n).beginEdit n).state.selected? = some n :=
      ((beginEdit_only _ n).selected?_eq (by decide)).trans (selected?_chosen e n)
    rcases session_beginEdit closed n with hs | hs
    · rw [hs] at ht
      simp at ht
    · rw [hs] at ht
      cases ht
      exact selected

/-- After a click the element that is edited is selected, if it was so before. -/
theorem session_click {e : HeadlessEditor} {target : NodeId}
    (h : ∀ t, e.state.session = some t → e.state.selected? = some t.element) {t : Session NodeId}
    (ht : (e.click target).1.state.session = some t) :
    (e.click target).1.state.selected? = some t.element := by
  have idle := session_endEdit e true
  rcases click_cases e target with ⟨-, heq⟩ | ⟨-, heq | ⟨n, -, heq⟩⟩
  · rw [heq] at ht ⊢
    exact h t ht
  · rw [heq, tell_state, (releaseSelection_only _).session_eq (by decide), idle] at ht
    simp at ht
  · rw [heq] at ht ⊢
    exact session_clickElement idle ht

/-- A key does nothing, or gives up the selection where nothing is edited. -/
theorem keyDown_cases (e : HeadlessEditor) (key : String) :
    e.keyDown key = e ∨ (e.state.session = none ∧
      e.keyDown key = (e.releaseSelection.clearHover true).tell .selectionCleared) := by
  unfold keyDown
  split
  · rename_i h
    simp only [Bool.and_eq_true, Option.isNone_iff_eq_none] at h
    exact .inr ⟨h.2, rfl⟩
  · exact .inl rfl

/-- A key touches selection and hover. -/
theorem keyDown_only (e : HeadlessEditor) (key : String) :
    Only (.told .cleared :: (selecting ++ hovering)) e (e.keyDown key) := by
  rcases keyDown_cases e key with h | ⟨-, h⟩
  · rw [h]
    exact .refl _ e
  · rw [h]
    exact (((releaseSelection_only e).trans (clearHover_only _ true)).trans
      (tell_only _ .cleared rfl)).mono (by decide)

/-- The pointer does nothing, takes the hover away or brings it to an element. -/
theorem pointerOver_cases (e : HeadlessEditor) (target : NodeId) :
    e.pointerOver target = e ∨ (e.state.mode = .enabled ∧
      (e.pointerOver target = e.clearHover true ∨
        ∃ n, e.identified? target = some n ∧ (e.pointerOver target = (e.metadata n).2.clearHover true ∨
          e.pointerOver target = (e.metadata n).2.hoverElement n))) := by
  unfold pointerOver
  by_cases hm : e.state.mode = .enabled
  · rw [if_neg (by simp [hm])]
    cases e.identified? target with
    | none => exact .inr ⟨hm, .inl rfl⟩
    | some n =>
      dsimp only
      split
      · exact .inl rfl
      · refine .inr ⟨hm, .inr ⟨n, rfl, ?_⟩⟩
        split
        · exact .inl rfl
        · exact .inr rfl
  · rw [if_pos hm]
    exact .inl rfl

theorem pointerOver_only (e : HeadlessEditor) (target : NodeId) :
    Only hovering e (e.pointerOver target) := by
  rcases pointerOver_cases e target with h | ⟨-, h | ⟨n, -, h | h⟩⟩
  · rw [h]
    exact .refl _ e
  · rw [h]
    exact clearHover_only e true
  · rw [h]
    exact (metadata_only e n).trans (clearHover_only _ true)
  · rw [h]
    exact (metadata_only e n).trans (hoverElement_only _ n)

/-- A text is told only while it is edited. -/
theorem input_cases (e : HeadlessEditor) (element : NodeId) :
    e.input element = e ∨ ∃ s, e.state.session = some s ∧ s.element = element ∧
      e.input element = e.tell (.textUpdated ⟨e.page.document.textContent element, s.identity⟩) := by
  unfold input
  cases h : e.state.session with
  | none => exact .inl rfl
  | some s =>
    dsimp only
    split
    · rename_i hs
      exact .inr ⟨s, rfl, hs, rfl⟩
    · exact .inl rfl

theorem input_only (e : HeadlessEditor) (element : NodeId) :
    Only [.outbox, .told .text] e (e.input element) := by
  rcases input_cases e element with h | ⟨s, -, -, h⟩
  · rw [h]
    exact .refl _ e
  · rw [h]
    exact tell_only e .text rfl

theorem handleEvent_blur (e : HeadlessEditor) (element : NodeId) :
    (e.handleEvent (.blur element)).1 =
      if e.state.editing? = some element then e.endEdit true else e :=
  apply_ite Prod.fst _ _ _

theorem handleEvent_editKeyDown (e : HeadlessEditor) (element : NodeId) (key : String) :
    (e.handleEvent (.editKeyDown element key)).1 =
      if key = "Escape" ∧ e.state.editing? = some element then e.endEdit false else e :=
  apply_ite Prod.fst _ _ _

/-- An event touches what reactions do. -/
theorem handleEvent_only (e : HeadlessEditor) (ev : PageEvent NodeId) :
    Only reacting e (e.handleEvent ev).1 := by
  cases ev with
  | click target => exact (click_only e target).mono (by decide)
  | submit target => exact .refl _ e
  | keyDown key => exact (keyDown_only e key).mono (by decide)
  | pointerOver target => exact (pointerOver_only e target).mono (by decide)
  | scroll => exact (clearHover_only e true).mono (by decide)
  | input element => exact (input_only e element).mono (by decide)
  | blur element =>
    rw [handleEvent_blur]
    split
    · exact (endEdit_only e true).mono (by decide)
    · exact .refl _ e
  | editKeyDown element key =>
    rw [handleEvent_editKeyDown]
    split
    · exact (endEdit_only e false).mono (by decide)
    · exact .refl _ e

end InPlace.Editor

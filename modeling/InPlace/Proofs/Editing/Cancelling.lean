import InPlace.Proofs.Editing.Documents
import InPlace.Proofs.Editing.Sessions
import InPlace.Proofs.Headless.PutBack

/-!
# Edits that are cancelled

A click opens the editing of a text, and the editing is cancelled before anything else was done to the page.
The editor has kept the text of the element and nothing else of what was inside of it. So the element has its
text again, as one text, and what was inside of it is cut off; other elements are where they were. Of the
attributes the marks are gone, and `contenteditable` with them, whether the editor had put it there or not.
The style is that of an element that was never selected, written anew if the selection ended too.

Main statements: `Idles.only` (steps with nothing to change), `Cancels.cases` (what a cancel does) and
`cancel_run`.
-/

namespace InPlace

open Headless (Document)

/-- Whether a command changes the selected element. -/
def Command.mutates : Command → Bool
  | updateText _ | updateStyles _ | updateClasses _ | deleteElement => true
  | setMode _ | clearSelection => false

namespace Editor

/-! ## Steps -/

/-- Whether a step has the editor do what a command says. -/
def Obeys (e : HeadlessEditor) : Step → Command → Prop
  | .operate (.command c), c' => c' = c
  | .operate (.setMode m), c => c = .setMode m
  | .operate (.receive data fromParent), c =>
    (TrustPolicy.mk e.config.hostTag).accept data fromParent = .ok c
  | _, _ => False

/-- A step through which a session goes on, and with which nobody changes an element. -/
structure Idle (e : HeadlessEditor) (s : Session NodeId) (x : Step) : Prop where
  unedited : ∀ y, x ≠ .page y
  unasked : ∀ c, e.Obeys x c → c.mutates = false
  goesOn : ¬ e.ends s x

/-- Such steps one after the other. -/
def Idles (e : HeadlessEditor) (s : Session NodeId) : List Step → Prop
  | [] => True
  | x :: xs => Idle e s x ∧ Idles (e.step x) s xs

/-- The ways in which the user or the host cancels a session. -/
inductive Cancels (e : HeadlessEditor) (s : Session NodeId) : Step → Prop
  | escape : Cancels e s (.operate (.event (.editKeyDown s.element "Escape")))
  /-- To give up the selection, or a change to a mode in which nothing is edited. -/
  | command {x : Step} {c : Command} (obeys : e.Obeys x c) (harmless : c.mutates = false)
      (ends : e.commandEnds s c) : Cancels e s x

section

variable {e : HeadlessEditor} {s : Session NodeId} {x : Step} {c : Command}

/-- A step that obeys a command carries it out. -/
theorem step_of_obeys (h : e.Obeys x c) : e.step x = (e.handleCommand c).1 := by
  cases x with
  | operate o =>
    cases o with
    | command c' =>
      cases (show c = c' from h)
      rfl
    | setMode m =>
      cases (show c = .setMode m from h)
      rfl
    | receive data fromParent =>
      have accepted : (TrustPolicy.mk e.config.hostTag).accept data fromParent = .ok c := h
      rcases receive_cases e data fromParent with
        ⟨r, level, message, fields, refused, -⟩ | ⟨c', hc', heq⟩
      · rw [refused] at accepted
        cases accepted
      · cases accepted.symm.trans hc'
        exact heq
    | _ => exact h.elim
  | _ => exact h.elim

/-- The aspects that steps reach through which a session goes on. -/
abbrev idling : List Aspect :=
  .channel :: .mode :: .told (.mode .enabled) :: .page (.attr Overlay.savingAttribute) :: .ready ::
    .told .ready :: .told .text :: (fittings ++ hovering)

/-- A command that neither changes an element nor ends the session. -/
theorem handleCommand_idle (hc : c.mutates = false) (hends : ¬ e.commandEnds s c) :
    Only idling e (e.handleCommand c).1 := by
  cases c with
  | setMode m =>
    obtain ⟨e', level, message, fields, heq, hcases⟩ := setMode_cases e m
    have logged := log_only e' level message fields
    show Only idling e (e.setMode m).1
    rw [heq]
    rcases hcases with ⟨-, -, rfl⟩ | ⟨-, -, rfl⟩ | ⟨hm, rfl, -⟩ | ⟨hm, rfl, -⟩ | ⟨-, rfl⟩
    · exact ((enable_only e).trans logged).mono (by decide)
    · exact ((leaveSaving_only e).trans logged).mono (by decide)
    · exact absurd (.inl ⟨hm, rfl⟩) hends
    · exact absurd (.inr ⟨hm, rfl⟩) hends
    · exact logged.mono (List.nil_subset _)
  | clearSelection => exact absurd trivial hends
  | _ => cases hc

/-- An event that does not end the session. -/
theorem handleEvent_idle (hs : e.state.session = some s) {ev : PageEvent NodeId}
    (hends : ¬ e.eventEnds s ev) : Only idling e (e.handleEvent ev).1 := by
  have editing : ∀ n, e.state.editing? = some n → n = s.element := by
    intro n hn
    rw [EditorState.editing?, hs] at hn
    exact (Option.some.inj hn).symm
  cases ev with
  | click target =>
    rcases click_cases e target with ⟨-, heq⟩ | ⟨heeds, -⟩
    · show Only idling e (e.click target).1
      rw [heq]
      exact .refl _ e
    · exact absurd heeds hends
  | submit target => exact .refl _ e
  | keyDown key =>
    rcases keyDown_cases e key with heq | ⟨idle, -⟩
    · show Only idling e (e.keyDown key)
      rw [heq]
      exact .refl _ e
    · exact absurd (hs.symm.trans idle) (by simp)
  | pointerOver target => exact (pointerOver_only e target).mono (by decide)
  | scroll => exact (clearHover_only e true).mono (by decide)
  | input element => exact (input_only e element).mono (by decide)
  | blur element =>
    rw [handleEvent_blur, if_neg fun hn => hends (editing element hn)]
    exact .refl _ e
  | editKeyDown element key =>
    rw [handleEvent_editKeyDown, if_neg fun hn => hends ⟨hn.1, editing element hn.2⟩]
    exact .refl _ e

/-- While an edit goes on idly only little changes. -/
theorem Idle.only (h : e.Idle s x) (hs : e.state.session = some s) : Only idling e (e.step x) := by
  cases x with
  | page y => exact absurd rfl (h.unedited y)
  | clock time => exact (clock_only e time).mono (by decide)
  | channel failing => exact (channel_only e failing).mono (by decide)
  | operate o =>
    cases o with
    | contentChanged => exact (contentChanged_only e).mono (by decide)
    | receive data fromParent =>
      show Only idling e (e.receive data fromParent).1
      rcases receive_cases e data fromParent with ⟨-, level, message, fields, -, heq⟩ | ⟨c, hc, heq⟩
      · rw [heq]
        exact (log_only e level message fields).mono (List.nil_subset _)
      · rw [heq]
        exact handleCommand_idle (h.unasked c hc) fun hends => h.goesOn ⟨c, hc, hends⟩
    | command c => exact handleCommand_idle (h.unasked c rfl) h.goesOn
    | setMode m =>
      have goesOn : ¬ e.commandEnds s (.setMode m) := h.goesOn
      exact handleCommand_idle rfl goesOn
    | event ev => exact handleEvent_idle hs h.goesOn
    | startEdit n =>
      have same : e.state.editing? = some n := by
        rw [EditorState.editing?, hs, Option.map_some, Decidable.of_not_not h.goesOn]
      show Only idling e (e.startEdit n)
      rw [startEdit, if_pos same]
      exact .refl _ e
    | endEdit commit => exact absurd trivial h.goesOn

/-- Through such steps the session goes on, and they reach nothing but the modes, the hover and the host. -/
theorem Idles.only {ys : List Step} (h : e.Idles s ys) (hs : e.state.session = some s) :
    Only idling e (e.run ys) := by
  induction ys generalizing e with
  | nil => exact .refl _ e
  | cons y ys ih =>
    obtain ⟨first, rest⟩ := h
    have stepped := first.only hs
    have run := ih rest ((stepped.session_eq (by decide)).trans hs)
    rw [run_cons]
    exact (stepped.trans run).mono (by simp)

/-- The aspects that are set right around the end of an edit. -/
abbrev hushing : List Aspect :=
  [.page .documentListeners, .listening, .page .bodyCursor, .page (.attr Overlay.savingAttribute)]

/-- The aspects that are set right after the selection ended. -/
abbrev leaving : List Aspect :=
  .mode :: .told .cleared :: .told (.mode .disabled) :: .page (.stylesheet Overlay.stylesId) ::
    .page (.stylesheet Overlay.scrollId) :: hovering

/-- A cancel puts the text back, and then may end the selection. -/
theorem Cancels.cases (h : e.Cancels s x) (hs : e.state.session = some s) :
    ∃ e₁ e₂, Only hushing e e₁ ∧ Only hushing (e₁.endEdit false) e₂ ∧
      (Only leaving e₂ (e.step x) ∨ Only leaving e₂.releaseSelection (e.step x)) := by
  cases h with
  | escape =>
    have escaped : e.step (.operate (.event (.editKeyDown s.element "Escape"))) = e.endEdit false := by
      show (e.handleEvent (.editKeyDown s.element "Escape")).1 = _
      rw [handleEvent_editKeyDown, if_pos ⟨rfl, congrArg (Option.map Session.element) hs⟩]
    rw [escaped]
    exact ⟨e, e.endEdit false, .refl _ e, .refl _ _, .inl (.refl _ _)⟩
  | command obeys harmless ends =>
    rename_i c
    rw [step_of_obeys obeys]
    cases c with
    | clearSelection =>
      exact ⟨e, e.endEdit false, .refl _ e, .refl _ _, .inr ((tell_only _ .cleared rfl).mono (by decide))⟩
    | setMode m =>
      -- a change of the mode ends the session where it leads to saving or to being disabled
      obtain ⟨e', level, message, fields, heq, hcases⟩ := setMode_cases e m
      have logged := log_only e' level message fields
      have ends : e.modeEnds m := ends
      show ∃ e₁ e₂, _ ∧ _ ∧ (Only leaving e₂ (e.setMode m).1 ∨ Only leaving _ (e.setMode m).1)
      rw [heq]
      rcases hcases with ⟨hm, rfl, -⟩ | ⟨hm, rfl, -⟩ | ⟨hm, rfl, rfl⟩ | ⟨hm, rfl, rfl⟩ | ⟨hm, -⟩
      · simp [modeEnds] at ends
      · simp [modeEnds] at ends
      · have said := setBodyAttribute_only e Overlay.savingAttribute (some "true")
        have left := (clearHover_only ((e.setBodyAttribute Overlay.savingAttribute
          (some "true")).endEdit false).releaseSelection false).trans (mode_only _ .saving)
        exact ⟨_, _, said.mono (by decide), .refl _ _, .inr ((left.trans logged).mono (by decide))⟩
      · have left := ((clearHover_only (e.endEdit false).hush.releaseSelection false).trans
          (strip_only _)).trans (enter_only _ .disabled)
        rw [disable_eq] at logged ⊢
        exact ⟨e, _, .refl _ e, hush_only _, .inr ((left.trans logged).mono (by decide))⟩
      · rcases hm with rfl | ⟨hm, rfl⟩
        · rcases ends with ⟨h₁, h₂⟩ | ⟨h₁, h₂⟩
          · exact absurd (h₁.symm.trans h₂) (by decide)
          · exact absurd h₂ h₁
        · simp [modeEnds, hm] at ends
    | _ => cases harmless

/-! ## What the end of an edit puts back -/

/-- An editing that is given up before the text changed leaves the element refilled. -/
theorem refilled_endEdit (hs : e.state.session = some s)
    (hel : (e.page.document.element? s.element).isSome)
    (ht : s.openingText = e.page.document.textContent s.element) :
    Document.Refilled s.element e.page.document (e.endEdit false).page.document := by
  have settled : Document.Refilled s.element e.page.document
      (e.page.document.setTextContent s.element s.openingText) :=
    ht ▸ Document.refilled_setTextContent hel
  have after := (unmarkEdited_only (e.settleText s false) s.element).trans
    (reportEdit_only _ s (e.page.document.textContent s.element) false)
  rw [endEdit_of_some hs]
  exact settled.of_sameTree (after.sameTree (by decide))

/-- After the end of an edit its element is not editable, and the others are as they were. -/
theorem editable_endEdit (e : HeadlessEditor) (commit : Bool) (m : NodeId) :
    (e.endEdit commit).page.document.attribute? m Overlay.editableAttribute =
      if e.state.editing? = some m then none
      else e.page.document.attribute? m Overlay.editableAttribute := by
  cases hs : e.state.session with
  | none =>
    rw [endEdit_of_none hs, EditorState.editing?, hs, Option.map_none, if_neg (by simp)]
  | some s =>
    let settled := e.settleText s commit
    have after := ((removeAttribute_only (settled.removeAttribute s.element Overlay.editableAttribute)
      s.element Overlay.editingAttribute).trans (unlistenTo_only _ s.element)).trans
        (reportEdit_only _ s (e.page.document.textContent s.element) commit)
    have removed := Document.attribute?_removeAttribute settled.page.document s.element m Overlay.editableAttribute
    rw [endEdit_of_some hs, EditorState.editing?, hs]
    refine (after.attribute?_eq (by decide) m).trans (removed.trans ?_)
    rw [(settleText_only e s commit).attribute?_eq (by decide)]
    simp

theorem released_some (d : Document) (r : Selection NodeId) : d.released (some r) =
    (d.removeAttribute r.element Overlay.selectedAttribute).restyled r.element r.unmarkedStyle := by
  cases h : r.unmarkedStyle <;> simp only [Document.released, Document.restyled, h]

/-- What the style of an element reads after its selection was released. -/
theorem attribute?_released_style (d : Document) (r : Selection NodeId) (m : NodeId) :
    (d.released (some r)).attribute? m "style" =
      if r.element = m ∧ (d.element? m).isSome then r.unmarkedStyle.map Styles.rewritten
      else d.attribute? m "style" := by
  have bare := Document.removeAttribute_only d r.element Overlay.selectedAttribute
  have style : (d.removeAttribute r.element Overlay.selectedAttribute).attribute? m "style" =
      d.attribute? m "style" := bare.same (.attr "style") (by decide) m
  have tree : d.SameTree (d.removeAttribute r.element Overlay.selectedAttribute) :=
    bare.same .tree (by decide)
  rw [released_some, Document.attribute?_restyled, tree.isSome_element?, style]

/-- To release the selection of an element puts back the style that it had. -/
theorem style_releaseSelection_of_some {r : Selection NodeId} (hsel : e.state.selection = some r)
    (there : (e.page.document.element? r.element).isSome) (m : NodeId) :
    e.releaseSelection.page.document.attribute? m "style" =
      if r.element = m then r.unmarkedStyle.map Styles.rewritten
      else e.page.document.attribute? m "style" := by
  rw [document_releaseSelection, hsel, attribute?_released_style]
  refine if_congr ⟨And.left, ?_⟩ rfl rfl
  rintro rfl
  exact ⟨rfl, there⟩

/-- The selection is released alike where the same elements have the same styles. -/
theorem style_releaseSelection {e' : HeadlessEditor} (hsel : e'.state.selection = e.state.selection)
    (tree : e.page.document.SameTree e'.page.document)
    (hstyle : ∀ m, e'.page.document.attribute? m "style" = e.page.document.attribute? m "style")
    (m : NodeId) : e'.releaseSelection.page.document.attribute? m "style" =
      e.releaseSelection.page.document.attribute? m "style" := by
  rw [document_releaseSelection, document_releaseSelection, hsel]
  cases e.state.selection with
  | none => exact hstyle m
  | some r => rw [attribute?_released_style, attribute?_released_style, tree.isSome_element?, hstyle]

/-! ## Clicks that open an edit -/

/-- A click that opens a session chooses its element and begins to edit it. -/
theorem click_opens {target : NodeId} (heeds : e.heeds target = true)
    (hs : (e.click target).1.state.session = some s) :
    (e.click target).1 = ((e.endEdit true).chosen s.element).beginEdit s.element ∧
      (e.page.document.element? s.element).isSome ∧
      s.openingText = e.page.document.textContent s.element := by
  have idle := session_endEdit e true
  have ended := (endEdit_true_only e).sameTree (by decide)
  rcases click_cases e target with ⟨ignored, -⟩ | ⟨-, heq | ⟨n, identified, heq⟩⟩
  · exact absurd (ignored.symm.trans heeds) (by decide)
  · rw [heq, tell_state, (releaseSelection_only _).session_eq (by decide), idle] at hs
    cases hs
  · have chosen := chosen_only (e.endEdit true) n
    have closed := (chosen.session_eq (by decide)).trans idle
    rw [heq] at hs ⊢
    -- nothing was edited after the click had ended the session, so one that is open was begun by it
    rcases clickElement_cases idle n with hclick | hclick | hclick
    · rw [hclick, ((metadata_only _ n).trans (log_only _ _ _ _)).session_eq (by decide), idle] at hs
      cases hs
    · rw [hclick, closed] at hs
      cases hs
    · rw [hclick] at hs ⊢
      rcases session_beginEdit closed n with none | some
      · rw [none] at hs
        cases hs
      · cases some.symm.trans hs
        refine ⟨rfl, (ended.isSome_element? n).symm.trans (element?_of_identified? identified), ?_⟩
        exact (Document.textContent_of_sameTree (chosen.sameTree (by decide)) n).trans
          (Document.textContent_of_sameTree ended n)

/-- To select an element after the earlier selection was released only marks it. -/
theorem select_of_released_only (e : HeadlessEditor) (n : NodeId) :
    Only [.page (.attr Overlay.selectedAttribute), .selection] e.releaseSelection (e.select n) :=
  (setAttribute_only e.releaseSelection n Overlay.selectedAttribute "true" _).trans
    (selection_only _ (some ⟨n, _⟩))

/-- Where an element was chosen, the styles are those without a selection, and that of the element is kept in
the selection. -/
theorem style_chosen (e : HeadlessEditor) (n : NodeId) :
    (∀ m, (e.chosen n).page.document.attribute? m "style" =
      e.releaseSelection.page.document.attribute? m "style") ∧
    (e.chosen n).state.selection =
      some ⟨n, e.releaseSelection.page.document.attribute? n "style"⟩ := by
  have looked := metadata_only e n
  have told := tellAbout_only ((e.metadata n).2.select n) n true .selection
    (fun d => .selectionChanged (some d)) fun _ => rfl
  have selected := select_of_released_only (e.metadata n).2 n
  have released := style_releaseSelection (looked.selection_eq (by decide)) (looked.sameTree (by decide))
    (looked.attribute?_eq (by decide))
  constructor
  · intro m
    exact ((selected.trans told).attribute?_eq (by decide) m).trans (released m)
  · rw [← released n]
    exact told.selection_eq (by decide)

/-- The begin of an edit makes no other element editable. -/
theorem editable_beginEdit (e : HeadlessEditor) {n m : NodeId} (h : m ≠ n) :
    (e.beginEdit n).page.document.attribute? m Overlay.editableAttribute =
      e.page.document.attribute? m Overlay.editableAttribute := by
  have looked : (e.metadata n).2.page.document.attribute? m Overlay.editableAttribute =
      e.page.document.attribute? m Overlay.editableAttribute :=
    (metadata_only e n).attribute?_eq (by decide) m
  rcases beginEdit_cases e n with ⟨page, hp, heq⟩ | ⟨fault, heq⟩
  · obtain ⟨-, d, h₁, h₂⟩ := markEdited_eq_ok hp
    have edited := (Document.setAttribute_only h₁).same (.attr Overlay.editableAttribute) (by decide) m
    have marked := Document.attribute?_setAttribute (by decide) h₂ m
    rw [if_neg (Ne.symm h)] at marked
    rw [heq, (openEdit_only _ n _ _).attribute?_eq (by decide)]
    exact (marked.trans edited).trans looked
  · have unedited := (log_only (e.metadata n).2 .warn "Failed to make element editable"
      [("error", fault.message)]).trans (removeAttribute_only _ n Overlay.editingAttribute)
    have removed := Document.attribute?_removeAttribute
      (((e.metadata n).2.log .warn "Failed to make element editable"
        [("error", fault.message)]).removeAttribute n Overlay.editingAttribute).page.document n m
      Overlay.editableAttribute
    rw [if_neg (Ne.symm h)] at removed
    rw [heq]
    exact (removed.trans (unedited.attribute?_eq (by decide) m)).trans looked

/-- A click that opens a session leaves the styles as they are without a selection, and keeps that of the
element in the selection. -/
theorem style_click {target : NodeId} (heeds : e.heeds target = true)
    (hs : (e.click target).1.state.session = some s) :
    (∀ m, (e.click target).1.page.document.attribute? m "style" =
      e.releaseSelection.page.document.attribute? m "style") ∧
    (e.click target).1.state.selection =
      some ⟨s.element, e.releaseSelection.page.document.attribute? s.element "style"⟩ := by
  obtain ⟨opened, -, -⟩ := click_opens heeds hs
  have ended := endEdit_true_only e
  have begun := beginEdit_only ((e.endEdit true).chosen s.element) s.element
  have released := style_releaseSelection (ended.selection_eq (by decide)) (ended.sameTree (by decide))
    (ended.attribute?_eq (by decide))
  obtain ⟨styles, selection⟩ := style_chosen (e.endEdit true) s.element
  rw [opened]
  constructor
  · intro m
    exact ((begun.attribute?_eq (by decide) m).trans (styles m)).trans (released m)
  · rw [begun.selection_eq (by decide), selection, released]

/-- A click that opens a session makes its element editable, and ends the session before. -/
theorem editable_click {target : NodeId} (heeds : e.heeds target = true)
    (hs : (e.click target).1.state.session = some s) {m : NodeId} (hm : m ≠ s.element) :
    (e.click target).1.page.document.attribute? m Overlay.editableAttribute =
      if e.state.editing? = some m then none
      else e.page.document.attribute? m Overlay.editableAttribute := by
  obtain ⟨opened, -, -⟩ := click_opens heeds hs
  rw [opened, editable_beginEdit _ hm, (chosen_only _ _).attribute?_eq (by decide), editable_endEdit]

/-! ## What is left of a cancelled edit -/

/-- The attributes that mark what is selected, edited or hovered, and the body while the host saves. -/
def markAttributes : List String :=
  [Overlay.selectedAttribute, Overlay.editingAttribute, Overlay.hoveredAttribute,
    Overlay.fullWidthAttribute, Overlay.savingAttribute]

/-- What a click that opened the editing of an element and a cancel have left of the document: the element
has its text as one text, what was inside of it is cut off, and everything else is where it was. Attributes
that are not the editor's own read as before. -/
structure Undone (n : NodeId) (e e' : HeadlessEditor) : Prop where
  tree : Document.Refilled n e.page.document e'.page.document
  connected : ∀ m, e.page.document.isConnected m = true →
    (∀ a ∈ e.page.document.nodes.ancestors m, a ∉ e.page.document.nodes.children n) →
      e'.page.document.isConnected m = true
  attributes : ∀ name, name ∉ markAttributes → name ≠ Overlay.editableAttribute → name ≠ "style" →
    ∀ m, e'.page.document.attribute? m name = e.page.document.attribute? m name
  /-- An edit that was open before the click ended with the click. -/
  editable : ∀ m, e'.page.document.attribute? m Overlay.editableAttribute =
    if m = n ∨ e.state.editing? = some m then none
    else e.page.document.attribute? m Overlay.editableAttribute
  style : ∀ m, m ≠ n → e'.page.document.attribute? m "style" =
    e.releaseSelection.page.document.attribute? m "style"
  ownStyle : let before := e.releaseSelection.page.document.attribute? n "style"
    e'.page.document.attribute? n "style" = before ∨
      e'.page.document.attribute? n "style" = before.map Styles.rewritten
  declarations : (e'.page.document.attribute? n "style").map Styles.ofText =
    (e.releaseSelection.page.document.attribute? n "style").map Styles.ofText

/-- A style that may have been written anew has the declarations that it had. -/
theorem declarations_of_rewritten {style before : Option String}
    (h : style = before ∨ style = before.map Styles.rewritten) :
    style.map Styles.ofText = before.map Styles.ofText := by
  rcases h with rfl | rfl
  · rfl
  · rw [Option.map_map]
    exact Option.map_congr fun v _ => Styles.ofText_rewritten v

/-- A cancel after steps with nothing to change takes back what the click did. -/
theorem undone_of_cancels {target : NodeId} {ys : List Step} (heeds : e.heeds target = true)
    (hs : (e.click target).1.state.session = some s) (idle : (e.click target).1.Idles s ys)
    (hx : ((e.click target).1.run ys).Cancels s x) :
    Undone s.element e (((e.click target).1.run ys).step x) := by
  obtain ⟨-, element, opening⟩ := click_opens heeds hs
  obtain ⟨styles, selection⟩ := style_click heeds hs
  have clicked := click_only e target
  have idled := idle.only hs
  obtain ⟨e₁, e₂, pre, post, left⟩ := hx.cases ((idled.session_eq (by decide)).trans hs)
  generalize ((e.click target).1.run ys).step x = e' at left ⊢
  -- `e₁` is the editor just before the text is put back, `e₂` the one just before the selection may end
  have waited := idled.trans pre
  have until₁ := clicked.trans waited
  have hs₁ : e₁.state.session = some s := (waited.session_eq (by decide)).trans hs
  have ended := (endEdit_only e₁ false).trans post
  have after : Only (selecting ++ leaving) e₂ e' := by
    rcases left with kept | released
    · exact kept.mono (by decide)
    · exact (releaseSelection_only e₂).trans released
  have refilled : Document.Refilled s.element e.page.document e'.page.document := by
    have tree := until₁.sameTree (by decide)
    have text := opening.trans (Document.textContent_of_sameTree tree s.element).symm
    exact ((refilled_endEdit hs₁ (until₁.elements _ element) text).of_sameTree_left tree).of_sameTree
      ((post.trans after).sameTree (by decide))
  have styles₂ : ∀ m, e₂.page.document.attribute? m "style" =
      e.releaseSelection.page.document.attribute? m "style" := fun m =>
    ((waited.trans ended).attribute?_eq (by decide) m).trans (styles m)
  have selection₂ := ((waited.trans ended).selection_eq (by decide)).trans selection
  have released₂ := style_releaseSelection_of_some selection₂ ((until₁.trans ended).elements _ element)
  have ownStyle : e'.page.document.attribute? s.element "style" =
        e.releaseSelection.page.document.attribute? s.element "style" ∨
      e'.page.document.attribute? s.element "style" =
        (e.releaseSelection.page.document.attribute? s.element "style").map Styles.rewritten := by
    rcases left with kept | released
    · exact .inl ((kept.attribute?_eq (by decide) _).trans (styles₂ _))
    · exact .inr ((released.attribute?_eq (by decide) _).trans ((released₂ _).trans (if_pos rfl)))
  refine ⟨refilled, fun m hm hout => refilled.isConnected hm hout, ?_, ?_, ?_, ownStyle,
    declarations_of_rewritten ownStyle⟩
  · intro name hmarks heditable hstyle m
    simp only [markAttributes, List.mem_cons, List.not_mem_nil, or_false, not_or] at hmarks
    exact ((until₁.trans ended).trans after).attribute?_eq (by simp [hmarks, heditable, hstyle]) m
  · intro m
    have editing : e₁.state.editing? = some s.element := congrArg (Option.map Session.element) hs₁
    rw [(post.trans after).attribute?_eq (by decide), editable_endEdit, editing,
      waited.attribute?_eq (by decide)]
    by_cases hm : m = s.element
    · subst hm
      rw [if_pos rfl, if_pos (.inl rfl)]
    · rw [if_neg fun h => hm (Option.some.inj h).symm, editable_click heeds hs hm]
      exact if_congr (by simp [hm]) rfl rfl
  · intro m hm
    rcases left with kept | released
    · exact (kept.attribute?_eq (by decide) m).trans (styles₂ m)
    · have other := (released₂ m).trans (if_neg (Ne.symm hm))
      exact (released.attribute?_eq (by decide) m).trans (other.trans (styles₂ m))

end

/-! ## Runs -/

/-- After any run, a click that opens the editing of a text, steps with nothing to change and a cancel leave
the text of the element and cut off what was inside of it. Nothing else of the document is changed, but for
the marks, `contenteditable` and the style that the earlier selection gives back. -/
theorem cancel_run (d : Document) (config : EditorConfig) (time : String) (xs ys : List Step)
    {target : NodeId} {x : Step} {s : Session NodeId}
    (heeds : ((new d config time).run xs).heeds target = true)
    (hs : ((new d config time).run (xs ++ [.operate (.event (.click target))])).state.session = some s)
    (idle : ((new d config time).run (xs ++ [.operate (.event (.click target))])).Idles s ys)
    (hx : ((new d config time).run (xs ++ .operate (.event (.click target)) :: ys)).Cancels s x) :
    Undone s.element ((new d config time).run xs)
      ((new d config time).run (xs ++ .operate (.event (.click target)) :: ys ++ [x])) := by
  have clicked : ∀ zs, (new d config time).run (xs ++ .operate (.event (.click target)) :: zs) =
      (((new d config time).run xs).click target).1.run zs :=
    fun zs => run_append _ xs _
  rw [clicked] at hs idle hx
  rw [run_append _ _ [x], clicked]
  exact undone_of_cancels heeds hs idle hx

/-- A text and an element with an identity and a text of its own, in a paragraph that may be edited. -/
def mixed : List Step :=
  [.page (.appendIdentified 0 "p" "a.tsx:1:0"), .page (.appendText 1 "Hello "),
    .page (.appendIdentified 1 "b" "a.tsx:1:3"), .page (.appendText 3 "you"),
    .operate (.setMode .enabled)]

/-- The page scrolls, and the host gives the selection up. -/
theorem cancel_run_mixed :
    Undone 1 ((new .empty {} "").run mixed) ((new .empty {} "").run (mixed ++
      [.operate (.event (.click 1)), .operate (.event .scroll), .operate (.command .clearSelection)])) := by
  have opened : ((new .empty {} "").run (mixed ++ [.operate (.event (.click 1))])).state.session =
      some ⟨1, "Hello you", Identity.parse? "a.tsx:1:0"⟩ := by decide +kernel
  have idle : ((new .empty {} "").run (mixed ++ [.operate (.event (.click 1))])).Idles
      ⟨1, "Hello you", Identity.parse? "a.tsx:1:0"⟩ [.operate (.event .scroll)] :=
    ⟨⟨fun _ h => Step.noConfusion h, fun _ h => h.elim, fun h => h⟩, trivial⟩
  exact cancel_run .empty {} "" mixed [.operate (.event .scroll)] (by decide +kernel) opened idle
    (.command (c := .clearSelection) rfl rfl trivial)

/-- A document reads as another one does, as far as an element goes: it has the same children, what has an
identity inside of it is in the document, and the attributes are the same, the marks apart. -/
structure Restored (n : NodeId) (d d' : Document) : Prop where
  children : d'.nodes.children n = d.nodes.children n
  inside : ∀ m ∈ d.identified, n ∈ d.nodes.ancestors m → d'.isConnected m = true
  attributes : ∀ name, ¬ "data-sg-".toList <+: name.toList →
    d'.attribute? n name = d.attribute? n name

/-- Escape right after a click leaves the paragraph without the element that was in it. -/
theorem not_restored_mixed :
    let e := (new .empty {} "").run mixed
    let opened := (new .empty {} "").run (mixed ++ [.operate (.event (.click 1))])
    let escape := Step.operate (.event (.editKeyDown 1 "Escape"))
    e.heeds 1 = true ∧
      (∃ s, opened.state.session = some s ∧ s.element = 1 ∧ opened.Idles s [] ∧
        opened.Cancels s escape) ∧
      ¬ Restored 1 e.page.document (opened.step escape).page.document := by
  intro e opened escape
  have session : opened.state.session = some ⟨1, "Hello you", Identity.parse? "a.tsx:1:0"⟩ := by
    decide +kernel
  refine ⟨by decide +kernel, ⟨_, session, rfl, trivial, .escape⟩, ?_⟩
  intro h
  have inside := h.inside 3 (by decide +kernel) (by decide +kernel)
  have cutOff : (opened.step escape).page.document.isConnected 3 = false := by decide +kernel
  rw [cutOff] at inside
  cases inside

end Editor

end InPlace

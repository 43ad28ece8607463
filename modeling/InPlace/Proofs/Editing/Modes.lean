import InPlace.Proofs.Editing.Run

/-!
# The mode and what goes with it

While the editor is active, the page has its listeners, its style sheets and its cursor, each of them once;
while it is disabled, the page has none of them and nothing is selected, hovered or edited. While the host
saves, the body says so and nothing is hovered.

Main statement: `inStep_run` (all of this holds in every state of every run).
-/

namespace InPlace

theorem EditMode.isActive_iff {m : EditMode} : m.isActive = true ↔ m ≠ .disabled := by
  cases m <;> decide

namespace Editor

open Headless (Document Part PageEdit)

/-! ## The page -/

/-- Whether the page is fitted out for an active editor, or has nothing of it. -/
structure Fitted (active : Bool) (e : HeadlessEditor) : Prop where
  listening : e.state.listening = active
  listeners : ∀ l, e.page.document.documentListeners.count l = if active then 1 else 0
  styles : e.page.document.stylesheets.filter (·.1 == Overlay.stylesId) =
    if active then [(Overlay.stylesId, Overlay.styles)] else []
  scroll : e.page.document.stylesheets.filter (·.1 == Overlay.scrollId) =
    if active then [(Overlay.scrollId, Overlay.scrollStyles)] else []
  cursor : e.page.document.bodyCursor = if active then some e.config.cursor else none

/-- The parts of a document that the editor keeps in step with its mode. -/
abbrev modeParts : List Part :=
  [.documentListeners, .bodyCursor, .stylesheet Overlay.stylesId, .stylesheet Overlay.scrollId,
    .attr Overlay.savingAttribute]

section Fitted

variable {as : List Aspect} {active : Bool} {e e' : HeadlessEditor}

/-- What leaves the fittings alone leaves the page fitted. -/
theorem Fitted.of_only (f : Fitted active e) (h : Only as e e')
    (ha : ∀ a ∈ fittings, a ∉ as) : Fitted active e' where
  listening := (h.listening_eq (ha _ (by decide))).trans f.listening
  listeners l := by
    rw [h.documentListeners_eq (ha _ (by decide))]
    exact f.listeners l
  styles := (h.stylesheets_eq (ha _ (by decide))).trans f.styles
  scroll := (h.stylesheets_eq (ha _ (by decide))).trans f.scroll
  cursor := by
    rw [h.config, h.bodyCursor_eq (ha _ (by decide))]
    exact f.cursor

/-- Whoever does not listen yet listens once more to every event. -/
theorem documentListeners_listen (h : e.state.listening = false) :
    e.listen.page.document.documentListeners =
      DocumentEvent.all.reverse ++ e.page.document.documentListeners := by
  unfold listen
  rw [if_neg (by simp [h])]
  rfl

/-- Whoever listens takes one registration for every event away. -/
theorem documentListeners_unlisten (h : e.state.listening = true) :
    e.unlisten.page.document.documentListeners =
      DocumentEvent.all.foldl List.erase e.page.document.documentListeners := by
  unfold unlisten
  rw [if_pos h]
  rfl

/-- Of every event one registration is taken away. -/
theorem count_foldl_erase (ls : List DocumentEvent) (l : DocumentEvent) :
    (DocumentEvent.all.foldl List.erase ls).count l = ls.count l - 1 := by
  cases l <;> simp [DocumentEvent.all]

theorem listening_listen (e : HeadlessEditor) : e.listen.state.listening = true := by
  unfold listen
  split
  · assumption
  · rfl

theorem listening_unlisten (e : HeadlessEditor) : e.unlisten.state.listening = false := by
  unfold unlisten
  split
  · rfl
  · rename_i h
    simpa using h

/-- A style sheet that is put in is there once, whatever was there before. -/
theorem stylesheets_injectStylesheet (e : HeadlessEditor) (id css : String) :
    (e.injectStylesheet id css).page.document.stylesheets.filter (·.1 == id) = [(id, css)] := by
  show ((e.page.document.stylesheets.drop id) ++ [(id, css)]).filter _ = _
  simp [Table.drop]

theorem stylesheets_removeStylesheet (e : HeadlessEditor) (id : String) :
    (e.removeStylesheet id).page.document.stylesheets.filter (·.1 == id) = [] := by
  show (e.page.document.stylesheets.drop id).filter _ = _
  simp [Table.drop]

/-- Fitting out gives a bare page each of its fittings. -/
theorem Fitted.fitOut (f : Fitted false e) : Fitted true e.fitOut := by
  have styled := injectStylesheet_only e Overlay.stylesId Overlay.styles
  have heard := styled.trans (listen_only _)
  let listening := (e.injectStylesheet Overlay.stylesId Overlay.styles).listen
  have shown : Only _ (listening.setBodyCursor (some listening.config.cursor)) e.fitOut :=
    (setBodyAttribute_only _ Overlay.savingAttribute none).trans
      (injectStylesheet_only _ Overlay.scrollId Overlay.scrollStyles)
  have pointed : Only _ listening e.fitOut :=
    (setBodyCursor_only listening (some listening.config.cursor)).trans shown
  refine ⟨?_, ?_, ?_, stylesheets_injectStylesheet _ _ _, ?_⟩
  · exact (pointed.listening_eq (by decide)).trans (listening_listen _)
  · intro l
    have deaf := (styled.listening_eq (by decide)).trans f.listening
    rw [pointed.documentListeners_eq (by decide), documentListeners_listen deaf,
      styled.documentListeners_eq (by decide), List.count_append, f.listeners l]
    cases l <;> rfl
  · have listened := (listen_only (e.injectStylesheet Overlay.stylesId Overlay.styles)).trans pointed
    exact (listened.stylesheets_eq (by decide)).trans (stylesheets_injectStylesheet _ _ _)
  · rw [shown.bodyCursor_eq (by decide), shown.config]
    rfl

/-- What takes the fittings away leaves a bare page, whatever comes between. -/
theorem Fitted.hush_strip (f : Fitted true e) (h : Only as e.hush e')
    (ha : ∀ a ∈ fittings, a ∉ as) : Fitted false e'.strip := by
  -- the listeners and the cursor go first, the style sheets last; what is between touches none of them
  have silent := (setBodyCursor_only e.unlisten none).trans
    (setBodyAttribute_only _ Overlay.savingAttribute none)
  have shown := setBodyAttribute_only (e.unlisten.setBodyCursor none) Overlay.savingAttribute none
  have stripped := strip_only e'
  refine ⟨?_, ?_, ?_, ?_, ?_⟩
  · rw [stripped.listening_eq (by decide), h.listening_eq (ha _ (by decide))]
    exact (silent.listening_eq (by decide)).trans (listening_unlisten e)
  · intro l
    rw [stripped.documentListeners_eq (by decide), h.documentListeners_eq (ha _ (by decide))]
    have unheard : e.hush.page.document.documentListeners = _ :=
      (silent.documentListeners_eq (by decide)).trans (documentListeners_unlisten f.listening)
    rw [unheard, count_foldl_erase, f.listeners l]
    rfl
  · have unscrolled := removeStylesheet_only (e'.removeStylesheet Overlay.stylesId) Overlay.scrollId
    exact (unscrolled.stylesheets_eq (by decide)).trans (stylesheets_removeStylesheet _ _)
  · exact stylesheets_removeStylesheet _ _
  · rw [stripped.bodyCursor_eq (by decide), h.bodyCursor_eq (ha _ (by decide))]
    exact (shown.bodyCursor_eq (by decide)).trans rfl

end Fitted

/-! ## The state -/

/-- What is selected, hovered and edited agrees with the mode and with each other. -/
structure Coherent (s : EditorState NodeId) : Prop where
  disabled : s.mode = .disabled → s.selection = none ∧ s.hover = none ∧ s.session = none
  saving : s.mode = .saving → s.hover = none
  session : ∀ t, s.session = some t → s.selected? = some t.element

section Coherent

variable {s s' : EditorState NodeId} {e : HeadlessEditor}

/-- To let go of things keeps the state coherent, if the edit goes no later than the selection. -/
theorem Coherent.letGo (c : Coherent s) (hm : s'.mode = s.mode)
    (hh : s'.hover = s.hover ∨ s'.hover = none)
    (hs : s'.selection = s.selection ∧ s'.session = s.session ∨ s'.session = none)
    (hsel : s'.selection = s.selection ∨ s'.selection = none) : Coherent s' where
  disabled h := by
    obtain ⟨sel, hov, ses⟩ := c.disabled (hm ▸ h)
    rw [sel] at hsel
    rw [hov] at hh
    refine ⟨hsel.elim id id, hh.elim id id, ?_⟩
    rcases hs with ⟨-, hs⟩ | hs
    · rw [hs, ses]
    · exact hs
  saving h := by
    rw [c.saving (hm ▸ h)] at hh
    exact hh.elim id id
  session t ht := by
    rcases hs with ⟨hsel, hs⟩ | hs
    · rw [EditorState.selected?, hsel]
      exact c.session t (hs ▸ ht)
    · rw [hs] at ht
      simp at ht

theorem coherent_contentChanged (c : Coherent e.state) : Coherent e.contentChanged.state := by
  have changed := contentChanged_only e
  have hover : e.contentChanged.state.hover = e.state.hover ∨ e.contentChanged.state.hover = none := by
    unfold contentChanged
    rw [(announce_only _).hover_eq (by decide)]
    unfold dropLostHover
    split
    · exact .inl rfl
    · exact .inr rfl
  exact c.letGo (changed.mode_eq (by decide)) hover
    (.inl ⟨changed.selection_eq (by decide), changed.session_eq (by decide)⟩)
    (.inl (changed.selection_eq (by decide)))

theorem coherent_clearHover (notify : Bool) (c : Coherent e.state) :
    Coherent (e.clearHover notify).state := by
  have cleared := clearHover_only e notify
  exact c.letGo (cleared.mode_eq (by decide)) (.inr (hover_clearHover e notify))
    (.inl ⟨cleared.selection_eq (by decide), cleared.session_eq (by decide)⟩)
    (.inl (cleared.selection_eq (by decide)))

theorem coherent_endEdit (commit : Bool) (c : Coherent e.state) :
    Coherent (e.endEdit commit).state := by
  have ended := endEdit_only e commit
  exact c.letGo (ended.mode_eq (by decide)) (.inl (ended.hover_eq (by decide)))
    (.inr (session_endEdit e commit)) (.inl (ended.selection_eq (by decide)))

/-- Where nothing is edited, the selection can go. -/
theorem coherent_releaseSelection (h : e.state.session = none) (c : Coherent e.state) :
    Coherent e.releaseSelection.state := by
  have released := releaseSelection_only e
  exact c.letGo (released.mode_eq (by decide)) (.inl (released.hover_eq (by decide)))
    (.inr ((released.session_eq (by decide)).trans h)) (.inr (selection_releaseSelection e))

/-- A deletion ends the edit, which is of the element that is deleted. -/
theorem coherent_deleteElement {n : NodeId} (hn : e.state.selected? = some n)
    (c : Coherent e.state) : Coherent (e.deleteElement n).1.state := by
  have idle : (e.letGo n).state.session = none := by
    -- what is edited is selected, so an open edit is one of this very element
    refine session_letGo ?_
    cases h : e.state.session with
    | none => exact .inl rfl
    | some t =>
      have same : some t.element = some n := (c.session t h).symm.trans hn
      exact .inr ((congrArg (Option.map Session.element) h).trans same)
  have letGo := letGo_only e n
  have freed : Coherent (e.letGo n).state :=
    c.letGo (letGo.mode_eq (by decide)) (hover_letGo e n) (.inr idle)
      (.inl (letGo.selection_eq (by decide)))
  rcases deleteElement_cases e n with h | ⟨page, -, h⟩
  · rw [h]
    exact freed
  · rw [h]
    exact freed.letGo rfl (.inl rfl) (.inr idle) (.inr rfl)

theorem coherent_clearSelection (c : Coherent e.state) : Coherent e.clearSelection.state := by
  unfold clearSelection
  rw [tell_state]
  exact coherent_releaseSelection (session_endEdit e false) (coherent_endEdit false c)

/-- What goes with a mode stays so after any command that does not set it. -/
theorem coherent_handleCommand {cmd : Command} (h : ∀ m, cmd ≠ .setMode m) (c : Coherent e.state) :
    Coherent (e.handleCommand cmd).1.state := by
  have kept : ∀ {as : List Aspect} {e' : HeadlessEditor}, Only as e e' →
      (∀ a ∈ [Aspect.mode, .hover, .selection, .session], a ∉ as) → Coherent e'.state :=
    fun ho ha => c.letGo (ho.mode_eq (ha _ (by decide))) (.inl (ho.hover_eq (ha _ (by decide))))
      (.inl ⟨ho.selection_eq (ha _ (by decide)), ho.session_eq (ha _ (by decide))⟩)
      (.inl (ho.selection_eq (ha _ (by decide))))
  have logged : e.state.selected? = none → ∀ level message fields,
      Coherent (e.log level message fields).state :=
    fun _ _ _ _ => kept (log_only e _ _ _) (by decide)
  cases cmd with
  | setMode m => exact absurd rfl (h m)
  | updateText text =>
    exact withSelected_induction (P := fun e => Coherent e.state) _ logged fun n _ =>
      kept (updateText_only e n text) (by decide)
  | updateStyles styles =>
    exact withSelected_induction (P := fun e => Coherent e.state) _ logged fun n _ =>
      kept (updateStyles_only e n styles) (by decide)
  | updateClasses changes =>
    exact withSelected_induction (P := fun e => Coherent e.state) _ logged fun n _ =>
      kept (updateClasses_only e n changes) (by decide)
  | deleteElement =>
    exact withSelected_induction (P := fun e => Coherent e.state) _ logged fun n hn =>
      coherent_deleteElement hn c
  | clearSelection => exact coherent_clearSelection c

/-- While the editor is disabled nothing is edited, so no edit needs a selection when it is enabled. -/
theorem coherent_enable (hm : e.state.mode = .disabled) (c : Coherent e.state) :
    Coherent e.enable.state := by
  have mode : e.enable.state.mode = .enabled := mode_enter e.fitOut .enabled
  obtain ⟨-, -, closed⟩ := c.disabled hm
  refine ⟨?_, ?_, ?_⟩
  · rw [mode]
    exact fun h => absurd h (by decide)
  · rw [mode]
    exact fun h => absurd h (by decide)
  · rw [(enable_only e).session_eq (by decide), closed]
    exact fun t ht => absurd ht (by simp)

theorem coherent_leaveSaving (c : Coherent e.state) : Coherent e.leaveSaving.state := by
  have left := leaveSaving_only e
  have mode : e.leaveSaving.state.mode = .enabled := mode_enter _ .enabled
  refine ⟨?_, ?_, ?_⟩
  · rw [mode]
    exact fun h => absurd h (by decide)
  · rw [mode]
    exact fun h => absurd h (by decide)
  · rw [left.session_eq (by decide), EditorState.selected?, left.selection_eq (by decide)]
    exact c.session

theorem coherent_enterSaving (e : HeadlessEditor) : Coherent e.enterSaving.state := by
  let said := e.setBodyAttribute Overlay.savingAttribute (some "true")
  let released := (said.endEdit false).releaseSelection
  have idle : e.enterSaving.state.session = none :=
    ((clearHover_only released false).session_eq (by decide)).trans
      (((releaseSelection_only _).session_eq (by decide)).trans (session_endEdit said false))
  refine ⟨?_, ?_, ?_⟩
  · exact fun h => absurd (show EditMode.saving = .disabled from h) (by decide)
  · exact fun _ => hover_clearHover released false
  · rw [idle]
    exact fun t ht => absurd ht (by simp)

theorem coherent_disable (e : HeadlessEditor) : Coherent e.disable.state := by
  let released := (e.endEdit false).hush.releaseSelection
  have cleared := clearHover_only released false
  have left := (strip_only (released.clearHover false)).trans (enter_only _ .disabled)
  have mode : e.disable.state.mode = .disabled := mode_enter _ .disabled
  have idle : e.disable.state.session = none := by
    rw [disable_eq, (((releaseSelection_only _).trans cleared).trans left).session_eq (by decide),
      (hush_only (e.endEdit false)).session_eq (by decide)]
    exact session_endEdit e false
  refine ⟨fun _ => ⟨?_, ?_, idle⟩, ?_, ?_⟩
  · rw [disable_eq, (cleared.trans left).selection_eq (by decide)]
    exact selection_releaseSelection _
  · rw [disable_eq, left.hover_eq (by decide)]
    exact hover_clearHover released false
  · rw [mode]
    exact fun h => absurd h (by decide)
  · rw [idle]
    exact fun t ht => absurd ht (by simp)

theorem coherent_setMode (m : EditMode) (c : Coherent e.state) : Coherent (e.setMode m).1.state :=
  setMode_induction (P := fun e => Coherent e.state) m c (fun _ _ _ _ c => c)
    (fun hm => coherent_enable hm c) (fun _ => coherent_leaveSaving c)
    (fun _ => coherent_enterSaving e) fun _ => coherent_disable e

/-- A click selects the element that it begins to edit. -/
theorem coherent_click (target : NodeId) (c : Coherent e.state) :
    Coherent (e.click target).1.state := by
  have clicked := click_only e target
  rcases click_cases e target with ⟨-, h⟩ | ⟨heeded, -⟩
  · rwa [h]
  · refine ⟨?_, ?_, fun t ht => session_click c.session ht⟩
    · intro h
      rw [heeds, ← clicked.mode_eq (by decide), h] at heeded
      exact absurd heeded (by simp [EditMode.isActive])
    · intro h
      rw [clicked.hover_eq (by decide)]
      exact c.saving ((clicked.mode_eq (by decide)).symm.trans h)

theorem coherent_keyDown (key : String) (c : Coherent e.state) :
    Coherent (e.keyDown key).state := by
  rcases keyDown_cases e key with h | ⟨idle, h⟩
  · rwa [h]
  · rw [h, tell_state]
    exact coherent_clearHover true (coherent_releaseSelection idle c)

/-- Only where the editor neither is disabled nor holds still does the pointer hover anything. -/
theorem coherent_pointerOver (target : NodeId) (c : Coherent e.state) :
    Coherent (e.pointerOver target).state := by
  have moved := pointerOver_only e target
  rcases pointerOver_cases e target with h | ⟨hm, -⟩
  · rwa [h]
  · have still := (moved.mode_eq (by decide)).trans hm
    refine ⟨?_, ?_, ?_⟩
    · intro h
      rw [still] at h
      exact absurd h (by decide)
    · intro h
      rw [still] at h
      exact absurd h (by decide)
    · intro t ht
      rw [moved.session_eq (by decide)] at ht
      rw [EditorState.selected?, moved.selection_eq (by decide)]
      exact c.session t ht

/-- What goes with a mode stays so after any event. -/
theorem coherent_handleEvent (ev : PageEvent NodeId) (c : Coherent e.state) :
    Coherent (e.handleEvent ev).1.state := by
  cases ev with
  | click target => exact coherent_click target c
  | submit target => exact c
  | keyDown key => exact coherent_keyDown key c
  | pointerOver target => exact coherent_pointerOver target c
  | scroll => exact coherent_clearHover true c
  | input element =>
    have heard := input_only e element
    exact c.letGo (heard.mode_eq (by decide)) (.inl (heard.hover_eq (by decide)))
      (.inl ⟨heard.selection_eq (by decide), heard.session_eq (by decide)⟩)
      (.inl (heard.selection_eq (by decide)))
  | blur element =>
    rw [handleEvent_blur]
    split
    · exact coherent_endEdit true c
    · exact c
  | editKeyDown element key =>
    rw [handleEvent_editKeyDown]
    split
    · exact coherent_endEdit false c
    · exact c

/-- An operation keeps the state coherent, unless it begins an edit of what is not selected. -/
theorem coherent_operate {o : Operation} (ho : ∀ n, o ≠ .startEdit n) (c : Coherent e.state) :
    Coherent (e.operate o).state := by
  have commanded : ∀ command : Command, Coherent (e.handleCommand command).1.state := by
    intro command
    by_cases hm : ∃ m, command = .setMode m
    · obtain ⟨m, rfl⟩ := hm
      exact coherent_setMode m c
    · exact coherent_handleCommand (fun m h => hm ⟨m, h⟩) c
  cases o with
  | contentChanged => exact coherent_contentChanged c
  | receive data fromParent =>
    exact receive_induction (P := fun e => Coherent e.state) data fromParent (fun _ _ _ => c) commanded
  | command c => exact commanded c
  | setMode m => exact coherent_setMode m c
  | event ev => exact coherent_handleEvent ev c
  | startEdit n => exact absurd rfl (ho n)
  | endEdit commit => exact coherent_endEdit commit c

end Coherent

/-! ## Changes of mode -/

/-- The page and the state of an editor are in step with its mode. -/
structure InStep (e : HeadlessEditor) : Prop where
  body : (e.page.document.element? Document.body).isSome
  fitted : Fitted e.state.mode.isActive e
  saving : (e.page.document.attribute? Document.body Overlay.savingAttribute).isSome ↔
    e.state.mode = .saving
  coherent : Coherent e.state

section InStep

variable {as : List Aspect} {e e' : HeadlessEditor}

/-- What leaves the mode and its fittings alone and keeps the state coherent stays in step. -/
theorem InStep.of_only (i : InStep e) (h : Only as e e')
    (ha : ∀ a ∈ .mode :: .page (.attr Overlay.savingAttribute) :: fittings, a ∉ as)
    (c : Coherent e'.state) : InStep e' where
  body := h.elements _ i.body
  fitted := by
    rw [h.mode_eq (ha _ (by decide))]
    exact i.fitted.of_only h fun a hin => ha a (by simp [hin])
  saving := by
    rw [h.mode_eq (ha _ (by decide)), h.attribute?_eq (ha _ (by decide))]
    exact i.saving
  coherent := c

/-- The body says of the saving what it is told to say. -/
theorem saving_setBodyAttribute (hbody : (e.page.document.element? Document.body).isSome)
    (value : Option String) :
    (e.setBodyAttribute Overlay.savingAttribute value).page.document.attribute? Document.body
      Overlay.savingAttribute = value :=
  Document.attribute?_setBodyAttribute (by decide) hbody value

theorem saving_fitOut (hbody : (e.page.document.element? Document.body).isSome) :
    e.fitOut.page.document.attribute? Document.body Overlay.savingAttribute = none := by
  let pointed := (e.injectStylesheet Overlay.stylesId Overlay.styles).listen.setBodyCursor
    (some (e.injectStylesheet Overlay.stylesId Overlay.styles).listen.config.cursor)
  have before : Only _ e pointed := ((injectStylesheet_only e Overlay.stylesId Overlay.styles).trans
    (listen_only _)).trans (setBodyCursor_only _ _)
  have after := injectStylesheet_only (pointed.setBodyAttribute Overlay.savingAttribute none)
    Overlay.scrollId Overlay.scrollStyles
  exact (after.attribute?_eq (by decide) _).trans
    (saving_setBodyAttribute (before.elements _ hbody) none)

theorem saving_hush (hbody : (e.page.document.element? Document.body).isSome) :
    e.hush.page.document.attribute? Document.body Overlay.savingAttribute = none := by
  have before := (unlisten_only e).trans (setBodyCursor_only _ none)
  exact saving_setBodyAttribute (before.elements _ hbody) none

/-- The page is in step with the editor when it is enabled. -/
theorem inStep_enable (hm : e.state.mode = .disabled) (i : InStep e) : InStep e.enable := by
  have entered := enter_only e.fitOut .enabled
  have enabled := enable_only e
  have mode : e.enable.state.mode = .enabled := mode_enter e.fitOut .enabled
  have bare : Fitted false e := by
    have f := i.fitted
    rwa [hm] at f
  refine ⟨enabled.elements _ i.body, ?_, ?_, coherent_enable hm i.coherent⟩
  · rw [mode]
    exact bare.fitOut.of_only entered (by decide)
  · rw [mode, enable_eq, entered.attribute?_eq (by decide), saving_fitOut i.body]
    decide

/-- The page is in step with the editor after saving. -/
theorem inStep_leaveSaving (hm : e.state.mode = .saving) (i : InStep e) : InStep e.leaveSaving := by
  have left := leaveSaving_only e
  have entered := enter_only (e.setBodyAttribute Overlay.savingAttribute none) .enabled
  have mode : e.leaveSaving.state.mode = .enabled := mode_enter _ .enabled
  refine ⟨left.elements _ i.body, ?_, ?_, coherent_leaveSaving i.coherent⟩
  · have active : Fitted true e := by
      have f := i.fitted
      rwa [hm] at f
    rw [mode]
    exact active.of_only left (by decide)
  · rw [mode]
    have unsaid : e.leaveSaving.page.document.attribute? Document.body Overlay.savingAttribute = none :=
      (entered.attribute?_eq (by decide) _).trans (saving_setBodyAttribute i.body none)
    rw [unsaid]
    decide

/-- The page is in step with the editor when it begins to save. -/
theorem inStep_enterSaving (hm : e.state.mode = .enabled) (i : InStep e) : InStep e.enterSaving := by
  let said := e.setBodyAttribute Overlay.savingAttribute (some "true")
  let released := (said.endEdit false).releaseSelection
  have saved := enterSaving_only e
  have cleared := clearHover_only released false
  have after : Only _ said e.enterSaving := (((endEdit_only said false).trans
    (releaseSelection_only _)).trans cleared).trans (mode_only _ .saving)
  refine ⟨saved.elements _ i.body, ?_, ?_, coherent_enterSaving e⟩
  · have active : Fitted true e := by
      have f := i.fitted
      rwa [hm] at f
    exact active.of_only saved (by decide)
  · rw [after.attribute?_eq (by decide), saving_setBodyAttribute i.body]
    exact ⟨fun _ => rfl, fun _ => rfl⟩

/-- The page is in step with the editor when it is disabled. -/
theorem inStep_disable (hm : e.state.mode ≠ .disabled) (i : InStep e) : InStep e.disable := by
  let released := (e.endEdit false).hush.releaseSelection
  have ended := endEdit_only e false
  have hushed := hush_only (e.endEdit false)
  have cleared := clearHover_only released false
  have freed : Only _ (e.endEdit false).hush (released.clearHover false) :=
    (releaseSelection_only _).trans cleared
  have stripped := strip_only (released.clearHover false)
  have entered := enter_only (released.clearHover false).strip .disabled
  have after := (freed.trans stripped).trans entered
  have mode : e.disable.state.mode = .disabled := mode_enter _ .disabled
  refine ⟨(disable_only e).elements _ i.body, ?_, ?_, coherent_disable e⟩
  · -- the fittings stay until `hush`, so the end of the edit finds them all
    have active : Fitted true e := by
      have f := i.fitted
      rwa [EditMode.isActive_iff.2 hm] at f
    rw [mode, disable_eq]
    exact ((active.of_only ended (by decide)).hush_strip freed (by decide)).of_only entered (by decide)
  · rw [mode, disable_eq, after.attribute?_eq (by decide), saving_hush (ended.elements _ i.body)]
    decide

theorem inStep_setMode (m : EditMode) (i : InStep e) : InStep (e.setMode m).1 :=
  setMode_induction m i
    (fun e _ _ _ i => i.of_only (log_only e _ _ _) (by decide) i.coherent)
    (fun hm => inStep_enable hm i) (fun hm => inStep_leaveSaving hm i)
    (fun hm => inStep_enterSaving hm i) fun hm => inStep_disable hm i

/-- An operation keeps everything in step, unless it begins an edit of what is not selected. -/
theorem inStep_operate {o : Operation} (ho : ∀ n, o ≠ .startEdit n) (i : InStep e) :
    InStep (e.operate o) := by
  have commanded : ∀ c : Command, InStep (e.handleCommand c).1 := by
    intro c
    by_cases hc : ∃ m, c = .setMode m
    · obtain ⟨m, rfl⟩ := hc
      exact inStep_setMode m i
    · have hne : ∀ m, c ≠ .setMode m := fun m hm => hc ⟨m, hm⟩
      exact i.of_only (handleCommand_only e hne) (by decide) (coherent_handleCommand hne i.coherent)
  cases o with
  | contentChanged =>
    exact i.of_only (contentChanged_only e) (by decide) (coherent_contentChanged i.coherent)
  | receive data fromParent =>
    have logged : ∀ level message fields, InStep (e.log level message fields) :=
      fun level message fields => i.of_only (log_only e level message fields) (by decide) i.coherent
    exact receive_induction data fromParent logged commanded
  | command c => exact commanded c
  | setMode m => exact inStep_setMode m i
  | event ev =>
    exact i.of_only (handleEvent_only e ev) (by decide) (coherent_handleEvent ev i.coherent)
  | startEdit n => exact absurd rfl (ho n)
  | endEdit commit =>
    exact i.of_only (endEdit_only e commit) (by decide) (coherent_endEdit commit i.coherent)

/-- The page is in step with the editor after every step that spares its parts. -/
theorem inStep_step {x : Step} (hx : x.Spares modeParts) (ho : ∀ n, x ≠ .operate (.startEdit n))
    (i : InStep e) : InStep (e.step x) := by
  cases x with
  | page x =>
    have spared : ∀ a ∈ .mode :: .page (.attr Overlay.savingAttribute) :: fittings,
        a ∈ modeParts.map Aspect.page ++ inner := by decide
    exact i.of_only (edit_only e x) (fun a ha => not_mem_of_spares hx a (spared a ha)) i.coherent
  | clock time => exact i.of_only (clock_only e time) (by decide) i.coherent
  | channel failing => exact i.of_only (channel_only e failing) (by decide) i.coherent
  | operate o => exact inStep_operate (fun n hn => ho n (congrArg Step.operate hn)) i

end InStep

/-! ## Runs -/

/-- Whatever the page does: what is selected, hovered and edited agrees in every state of every run in which edits
begin only where the editor begins them. -/
theorem coherent_run (d : Document) (config : EditorConfig) (time : String) {xs : List Step}
    (ho : ∀ n, .operate (.startEdit n) ∉ xs) : Coherent ((new d config time).run xs).state := by
  have begun : Coherent (new d config time).state :=
    ⟨fun _ => ⟨rfl, rfl, rfl⟩, fun _ => rfl, fun t ht => absurd ht (by simp [new])⟩
  refine run_induction (P := fun e => Coherent e.state) begun ?_
  intro x hin e c
  cases x with
  | operate o =>
    refine coherent_operate ?_ c
    intro n hn
    rw [hn] at hin
    exact ho n hin
  | page x => exact c
  | clock time => exact c
  | channel failing => exact c

/-- A document that is not fitted out for any editor. -/
structure Bare (d : Document) : Prop where
  body : (d.element? Document.body).isSome
  listeners : d.documentListeners = []
  styles : d.stylesheets.filter (·.1 == Overlay.stylesId) = []
  scroll : d.stylesheets.filter (·.1 == Overlay.scrollId) = []
  cursor : d.bodyCursor = none
  saving : d.attribute? Document.body Overlay.savingAttribute = none

/-- A bare page is in step with a new editor. -/
theorem inStep_new {d : Document} (h : Bare d) (config : EditorConfig) (time : String) :
    InStep (new d config time) where
  body := h.body
  fitted :=
    { listening := rfl
      listeners := fun l => (congrArg (List.count l) h.listeners).trans List.count_nil
      styles := h.styles
      scroll := h.scroll
      cursor := h.cursor }
  saving := by
    rw [show (new d config time).page.document = d from rfl, h.saving]
    exact ⟨fun h => absurd h (by decide), fun h => absurd (show EditMode.disabled = .saving from h)
      (by decide)⟩
  coherent := ⟨fun _ => ⟨rfl, rfl, rfl⟩, fun _ => rfl, fun t ht => absurd ht (by simp [new])⟩

/-- In every state of every run the page and the state are in step with the mode, if the page leaves alone
what the editor puts into it and edits begin only where the editor begins them. -/
theorem inStep_run {d : Document} (h : Bare d) (config : EditorConfig) (time : String)
    {xs : List Step} (hx : ∀ x ∈ xs, x.Spares modeParts)
    (ho : ∀ n, .operate (.startEdit n) ∉ xs) : InStep ((new d config time).run xs) := by
  refine run_induction (inStep_new h config time) ?_
  intro x hin e i
  refine inStep_step (hx x hin) ?_ i
  intro n hn
  rw [hn] at hin
  exact ho n hin

/-- An edit that the user began is open while the host saves, and is gone with the mode. -/
theorem inStep_run_click_disable :
    InStep ((new (Document.empty.appendIdentified Document.body "p" "src/App.tsx:1:1") {} "").run
      [.operate (.setMode .enabled), .page (.appendText 1 "Hello"), .operate (.event (.click 1)),
        .page (.setAttribute 1 "class" "wide"), .operate (.setMode .saving),
        .operate (.event (.click 1)), .operate (.setMode .disabled)]) :=
  inStep_run ⟨rfl, rfl, rfl, rfl, rfl, rfl⟩ {} "" (by decide) (by simp)

end Editor

end InPlace

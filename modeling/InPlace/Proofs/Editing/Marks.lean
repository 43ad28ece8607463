import InPlace.Proofs.Editing.Run

/-!
# Marks

Which nodes the editor marks, and which it listens to. A node has the mark of the selection exactly if it is
selected, and the marks of an edit and its three listeners exactly if its text is edited. No node keeps a mark
that it should have lost, wherever it is, in the tree or out of it.

Main statement: `marksExact_run` (this holds in every state of every run).
-/

namespace InPlace.Editor

open Headless (Document Part PageEdit)

/-- The nodes with an attribute are this one, or none. -/
def Marks (name : String) (n? : Option NodeId) (d : Document) : Prop :=
  ∀ n, (d.attribute? n name).isSome ↔ n? = some n

/-- The nodes that are listened to are this one, once for every event, or none. -/
def Hears (n? : Option NodeId) (d : Document) : Prop :=
  ∀ n l, d.elementListeners.count (n, l) = if n? = some n then 1 else 0

/-- The marks and the listeners say of every node whether it is selected and whether it is edited. -/
structure MarksExact (e : HeadlessEditor) : Prop where
  selected : Marks Overlay.selectedAttribute e.state.selected? e.page.document
  editing : Marks Overlay.editingAttribute e.state.editing? e.page.document
  editable : Marks Overlay.editableAttribute e.state.editing? e.page.document
  listeners : Hears e.state.editing? e.page.document

/-- The parts of a document that the marks and the listeners are in. -/
abbrev markParts : List Part :=
  [.attr Overlay.selectedAttribute, .attr Overlay.editingAttribute, .attr Overlay.editableAttribute,
    .elementListeners]

/-- The aspects that say what is selected and what is edited. -/
abbrev marking : List Aspect :=
  .selection :: .page (.attr Overlay.selectedAttribute) :: .session :: editMarks

section Marks

variable {as : List Aspect} {e e' : HeadlessEditor} {name : String} {n? : Option NodeId}

theorem Marks.of_eq {d d' : Document} (m : Marks name n? d)
    (h : ∀ n, d'.attribute? n name = d.attribute? n name) : Marks name n? d' := by
  intro n
  rw [h n]
  exact m n

theorem Marks.of_only (m : Marks name n? e.page.document) (h : Only as e e')
    (ha : .page (.attr name) ∉ as) : Marks name n? e'.page.document :=
  m.of_eq (h.attribute?_eq ha)

theorem Hears.of_only (m : Hears n? e.page.document) (h : Only as e e')
    (ha : .page .elementListeners ∉ as) : Hears n? e'.page.document := by
  intro n l
  rw [h.elementListeners_eq ha]
  exact m n l

/-- What leaves the edit alone leaves the marks exact, if the mark of the selection is. -/
theorem MarksExact.of_selected (m : MarksExact e) (h : Only as e e')
    (ha : ∀ a ∈ .session :: editMarks, a ∉ as)
    (selected : Marks Overlay.selectedAttribute e'.state.selected? e'.page.document) :
    MarksExact e' := by
  have editing := h.editing?_eq (ha _ (by decide))
  refine ⟨selected, ?_, ?_, ?_⟩
  · rw [editing]
    exact m.editing.of_only h (ha _ (by decide))
  · rw [editing]
    exact m.editable.of_only h (ha _ (by decide))
  · rw [editing]
    exact m.listeners.of_only h (ha _ (by decide))

/-- What leaves the marks alone leaves them exact. -/
theorem MarksExact.of_only (m : MarksExact e) (h : Only as e e') (ha : ∀ a ∈ marking, a ∉ as) :
    MarksExact e' := by
  refine m.of_selected h (fun a hin => ha a ?_) ?_
  · exact List.mem_cons_of_mem _ (List.mem_cons_of_mem _ hin)
  · rw [h.selected?_eq (ha _ (by decide))]
    exact m.selected.of_only h (ha _ (by decide))

/-- Where one node at most had a mark, none has it after it was taken from that node. -/
theorem Marks.remove {n : NodeId} (m : Marks name n? e.page.document) (hn : n? = some n ∨ n? = none) :
    Marks name none (e.removeAttribute n name).page.document := by
  intro k
  show ((e.page.document.removeAttribute n name).attribute? k name).isSome ↔ _
  rw [Document.attribute?_removeAttribute]
  split
  · simp
  · rename_i hne
    rw [m k]
    rcases hn with hn | hn
    · simp [hn, hne]
    · simp [hn]

/-- Where no node had a mark, an element has it after it was marked. -/
theorem Marks.set {d d' : Document} {n : NodeId} {value : String} (m : Marks name none d)
    (hname : name ≠ "style") (h : d.setAttribute n name value = .ok d') : Marks name (some n) d' := by
  intro k
  rw [Document.attribute?_setAttribute hname h]
  split
  · rename_i hnk
    simp [hnk]
  · rename_i hne
    rw [m k]
    simp [hne]

/-- Where no node had a mark, an element has it after the editor marked it. -/
theorem Marks.setAttribute {n : NodeId} {value : String} (m : Marks name none e.page.document)
    (hname : name ≠ "style") (hn : (e.page.document.element? n).isSome) (failure : String) :
    Marks name (some n) (e.setAttribute n name value failure).page.document := by
  obtain ⟨d, hd⟩ : ∃ d, e.page.document.setAttribute n name value = .ok d :=
    let ⟨_, _, worked⟩ := Document.ifElement_of_isSome hn _
    ⟨_, worked⟩
  have tried : Page.setAttribute e.page n name value = .ok { e.page with document := d } :=
    tryDocument_of_ok (f := fun d => d.setAttribute n name value) hd
  unfold Editor.setAttribute
  rw [tryPage_of_ok tried]
  exact m.set hname hd

/-- The count of a registration after one was taken away. -/
theorem count_foldl_erase_pair (n k : NodeId) (l : ElementEvent) (ls : List (NodeId × ElementEvent)) :
    (ElementEvent.all.foldl (fun ls l => ls.erase (n, l)) ls).count (k, l) =
      if n = k then ls.count (k, l) - 1 else ls.count (k, l) := by
  by_cases h : n = k
  · subst h
    cases l <;> simp [ElementEvent.all]
  · simp [ElementEvent.all, h, List.count_erase]

/-- Where one node at most was listened to, none is after the listeners to it are taken away. -/
theorem Hears.unlisten {n : NodeId} (m : Hears n? e.page.document)
    (hn : n? = some n ∨ n? = none) : Hears none (e.unlistenTo n).page.document := by
  intro k l
  have erased : (e.unlistenTo n).page.document.elementListeners =
      ElementEvent.all.foldl (fun ls l => ls.erase (n, l)) e.page.document.elementListeners := rfl
  rw [erased, count_foldl_erase_pair, m k l]
  rcases hn with hn | hn
  · by_cases h : n = k
    · simp [hn, h]
    · simp [hn, h]
  · simp [hn]

/-- An element is listened to once more after the editor listened to it. -/
theorem elementListeners_listenTo_event {n : NodeId} (hn : (e.page.document.element? n).isSome)
    (l : ElementEvent) (failure : String) (fields : List (String × String)) :
    (e.tryPage (fun page => Page.listenTo page n l) failure fields).page.document.elementListeners =
      (n, l) :: e.page.document.elementListeners := by
  have listened : e.page.document.listenTo n l =
      .ok { e.page.document with elementListeners := (n, l) :: e.page.document.elementListeners } :=
    let ⟨_, _, registered⟩ := Document.ifElement_of_isSome hn _
    registered
  have tried : Page.listenTo e.page n l = .ok { e.page with
      document := { e.page.document with
        elementListeners := (n, l) :: e.page.document.elementListeners } } :=
    tryDocument_of_ok (f := fun d => d.listenTo n l) listened
  rw [tryPage_of_ok tried]

/-- Where nothing was listened to, an element is after the editor listened to it. -/
theorem Hears.listen {n : NodeId} (m : Hears none e.page.document)
    (hn : (e.page.document.element? n).isSome) : Hears (some n) (e.listenTo n).page.document := by
  -- by induction on the events; that the node is an element carries through each of them
  have heard : ∀ (ls : List ElementEvent) (e : HeadlessEditor),
      (e.page.document.element? n).isSome →
        (ls.foldl (fun e l => e.tryPage (fun page => Page.listenTo page n l)
          "Failed to add edit listener" [("event", l.name)]) e).page.document.elementListeners =
          ls.reverse.map (n, ·) ++ e.page.document.elementListeners := by
    intro ls
    induction ls with
    | nil => exact fun _ _ => rfl
    | cons l ls ih =>
      intro e hn
      have kept : Only _ e (e.tryPage (fun page => Page.listenTo page n l)
          "Failed to add edit listener" [("event", l.name)]) :=
        tryPage_only [.elementListeners] e (fun d => d.listenTo n l) _ _ fun _ h =>
          Document.listenTo_only h
      rw [List.foldl_cons, ih _ (kept.elements n hn), elementListeners_listenTo_event hn]
      simp
  intro k l
  rw [show (e.listenTo n).page.document.elementListeners = _ from heard ElementEvent.all e hn,
    List.count_append, m k l]
  by_cases h : n = k
  · subst h
    cases l <;> simp [ElementEvent.all]
  · simp [ElementEvent.all, h]

end Marks

/-! ## The pieces of the operations -/

section

variable {e : HeadlessEditor}

/-- The editor with the mark of the selection taken away, before the style is put back. -/
def deselected (e : HeadlessEditor) (s : Selection NodeId) : HeadlessEditor :=
  removeAttribute { e with state := { e.state with selection := none } } s.element
    Overlay.selectedAttribute

/-- There is no selection, or its mark goes and then its style is put back. -/
theorem releaseSelection_cases (e : HeadlessEditor) :
    (e.state.selection = none ∧ e.releaseSelection = e) ∨
      ∃ s, e.state.selection = some s ∧
        Only [.page (.attr "style")] (e.deselected s) e.releaseSelection := by
  unfold releaseSelection
  cases h : e.state.selection with
  | none => exact .inl ⟨rfl, rfl⟩
  | some s =>
    refine .inr ⟨s, rfl, ?_⟩
    dsimp only
    split
    · exact setAttribute_only (e.deselected s) _ _ _ _
    · exact removeAttribute_only (e.deselected s) _ _

theorem marksExact_releaseSelection (m : MarksExact e) : MarksExact e.releaseSelection := by
  refine m.of_selected (releaseSelection_only e) (by decide) ?_
  have selected := m.selected
  rw [selected?_releaseSelection]
  rcases releaseSelection_cases e with ⟨hs, h⟩ | ⟨s, hs, h⟩
  · rwa [EditorState.selected?, hs, ← h] at selected
  · rw [EditorState.selected?, hs] at selected
    have unmarked : Marks Overlay.selectedAttribute none (e.deselected s).page.document :=
      selected.remove (.inl rfl)
    exact unmarked.of_only h (by decide)

/-- Marks are exact when an element is selected. -/
theorem marksExact_select {n : NodeId} (hn : (e.page.document.element? n).isSome)
    (m : MarksExact e) : MarksExact (e.select n) := by
  have released := releaseSelection_only e
  have unmarked := (marksExact_releaseSelection m).selected
  refine m.of_selected (select_only e n) (by decide) ?_
  rw [selected?_releaseSelection] at unmarked
  rw [selected?_select]
  exact unmarked.setAttribute (by decide) (released.elements n hn) "Failed to mark selected element"

/-- An element that is taken out of the page loses its mark with the selection. -/
theorem marksExact_dropped {n : NodeId} {page : Headless} (hn : e.state.selected? = some n)
    (hp : Page.remove? e.page n = some page) (m : MarksExact e) : MarksExact (e.dropped n page) := by
  obtain ⟨ho, hd⟩ := remove?_eq_some hp
  -- the element is out of the page by then, and is still an element that the mark is taken from
  have removed := only_of_document [.tree] ho (Document.remove?_only hd)
  have selected := m.selected
  rw [hn] at selected
  refine m.of_selected (dropped_only hp) (by decide) ?_
  exact (selected.of_only removed (by decide)).remove (.inl rfl)

/-- An edit that ends takes its marks and its listeners with it. -/
theorem marksExact_endEdit (commit : Bool) (m : MarksExact e) : MarksExact (e.endEdit commit) := by
  cases h : e.state.session with
  | none => rwa [endEdit_of_none h]
  | some s =>
    have edited : e.state.editing? = some s.element := congrArg (Option.map Session.element) h
    have idle := editing?_endEdit e commit
    have ended := endEdit_only e commit
    let settled := e.settleText s commit
    let uneditable := settled.removeAttribute s.element Overlay.editableAttribute
    -- the marks are taken away one by one: each is followed from the state before its removal
    have settle := settleText_only e s commit
    have before : Only _ e uneditable :=
      settle.trans (removeAttribute_only settled s.element Overlay.editableAttribute)
    have report := reportEdit_only (settled.unmarkEdited s.element) s
      (e.page.document.textContent s.element) commit
    have unedited := removeAttribute_only uneditable s.element Overlay.editingAttribute
    have unheard := unlistenTo_only (uneditable.removeAttribute s.element Overlay.editingAttribute)
      s.element
    have editing := m.editing
    have editable := m.editable
    have listeners := m.listeners
    rw [edited] at editing editable listeners
    refine ⟨?_, ?_, ?_, ?_⟩
    · rw [ended.selected?_eq (by decide)]
      exact m.selected.of_only ended (by decide)
    · rw [idle, endEdit_of_some h]
      have removed := (editing.of_only before (by decide)).remove (.inl rfl)
      exact (removed.of_only unheard (by decide)).of_only report (by decide)
    · rw [idle, endEdit_of_some h]
      have removed := (editable.of_only settle (by decide)).remove (.inl rfl)
      exact (removed.of_only (unedited.trans unheard) (by decide)).of_only report (by decide)
    · rw [idle, endEdit_of_some h]
      have removed := (listeners.of_only (before.trans unedited) (by decide)).unlisten (.inl rfl)
      exact removed.of_only report (by decide)

/-- An edit that begins marks its element and listens to it. -/
theorem marksExact_openEdit {n : NodeId} (text : String) (i : Option Identity)
    (hn : (e.page.document.element? n).isSome)
    (selected : Marks Overlay.selectedAttribute e.state.selected? e.page.document)
    (editing : Marks Overlay.editingAttribute (some n) e.page.document)
    (editable : Marks Overlay.editableAttribute (some n) e.page.document)
    (listeners : Hears none e.page.document) : MarksExact (e.openEdit n text i) := by
  have begun := openEdit_only e n text i
  have edited := editing?_openEdit e n text i
  refine ⟨?_, ?_, ?_, ?_⟩
  · rw [begun.selected?_eq (by decide)]
    exact selected.of_only begun (by decide)
  · rw [edited]
    exact editing.of_only begun (by decide)
  · rw [edited]
    exact editable.of_only begun (by decide)
  · rw [edited, openEdit_eq]
    have focused := focusOn_only e n
    have heard := (listeners.of_only focused (by decide)).listen (focused.elements n hn)
    exact heard.of_only ((opened_of_listenTo_only e n text i).trans (tellOpened_only _ n)) (by decide)

/-- Where nothing is edited, the marks of an edit can be taken away once more. -/
theorem marksExact_unmark (n : NodeId) (h : e.state.editing? = none) (m : MarksExact e) :
    MarksExact ((e.removeAttribute n Overlay.editingAttribute).removeAttribute n
      Overlay.editableAttribute) := by
  have unedited := removeAttribute_only e n Overlay.editingAttribute
  have uneditable := removeAttribute_only (e.removeAttribute n Overlay.editingAttribute) n
    Overlay.editableAttribute
  have removed : Marks Overlay.editingAttribute none
      (e.removeAttribute n Overlay.editingAttribute).page.document :=
    m.editing.remove (.inr h)
  have editable : Marks Overlay.editableAttribute e.state.editing?
      (e.removeAttribute n Overlay.editingAttribute).page.document :=
    m.editable.of_only unedited (by decide)
  refine ⟨m.selected.of_only (unedited.trans uneditable) (by decide), ?_, ?_,
    m.listeners.of_only (unedited.trans uneditable) (by decide)⟩
  · show Marks _ e.state.editing? _
    rw [h]
    exact removed.of_only uneditable (by decide)
  · show Marks _ e.state.editing? _
    rw [h]
    exact editable.remove (.inr h)

/-- Marks are exact when an edit begins. -/
theorem marksExact_beginEdit (n : NodeId) (h : e.state.session = none) (m : MarksExact e) :
    MarksExact (e.beginEdit n) := by
  have known := metadata_only e n
  have closed : (e.metadata n).2.state.editing? = none :=
    congrArg (Option.map Session.element) ((known.session_eq (by decide)).trans h)
  have marks := m.of_only known (by decide)
  rcases beginEdit_cases e n with ⟨page, hp, heq⟩ | ⟨fault, heq⟩
  · obtain ⟨ho, d, h1, h2⟩ := markEdited_eq_ok hp
    have first := Document.setAttribute_only h1
    have second := Document.setAttribute_only h2
    have marked := marked_only hp
    obtain ⟨-, editing, editable, listeners⟩ := marks
    rw [closed] at editing editable listeners
    rw [heq]
    refine marksExact_openEdit _ _ (element?_marked hp) ?_ ?_ ?_ ?_
    · rw [marked.selected?_eq (by decide)]
      exact m.selected.of_only marked (by decide)
    · exact (editing.set (by decide) h1).of_eq (second.same (.attr Overlay.editingAttribute) (by decide))
    · have uneditable := editable.of_eq (first.same (.attr Overlay.editableAttribute) (by decide))
      exact uneditable.set (by decide) h2
    · intro k l
      rw [marked.elementListeners_eq (by decide), ← known.elementListeners_eq (by decide)]
      exact listeners k l
  · rw [heq]
    have logged := known.trans (log_only _ .warn "Failed to make element editable"
      [("error", fault.message)])
    have idle : ((e.metadata n).2.log .warn "Failed to make element editable"
        [("error", fault.message)]).state.editing? = none := closed
    exact marksExact_unmark n idle (m.of_only logged (by decide))

/-- Every piece of the operations keeps the marks exact. -/
theorem marksExact_kept : Kept MarksExact where
  aside h m := m.of_only h (by decide)
  tell {e n} _ m := m.of_only (tell_only e n.topic rfl) (by simp)
  announce m := m.of_only (announce_only _) (by decide)
  releaseSelection := marksExact_releaseSelection
  select := marksExact_select
  dropped hn _ hp m := marksExact_dropped hn hp m
  endEdit := marksExact_endEdit
  beginEdit := marksExact_beginEdit
  input n m := m.of_only (input_only _ n) (by decide)
  enable m := m.of_only (enter_only _ .enabled) (by decide)
  disable _ m := m.of_only (enter_only _ .disabled) (by decide)
  save _ m := m.of_only (mode_only _ .saving) (by decide)

/-- Marks are exact after every step that spares them. -/
theorem marksExact_step {x : Step} (hx : x.Spares markParts) (m : MarksExact e) :
    MarksExact (e.step x) := by
  cases x with
  | page x =>
    have spared : ∀ a ∈ marking, a ∈ markParts.map Aspect.page ++ inner := by decide
    exact m.of_only (edit_only e x) fun a ha => not_mem_of_spares hx a (spared a ha)
  | clock time => exact m.of_only (clock_only e time) (by decide)
  | channel failing => exact m.of_only (channel_only e failing) (by decide)
  | operate o => exact marksExact_kept.operate o m

end

/-! ## Runs -/

/-- A document in which no node is marked or listened to. -/
structure Unmarked (d : Document) : Prop where
  selected : ∀ n, d.attribute? n Overlay.selectedAttribute = none
  editing : ∀ n, d.attribute? n Overlay.editingAttribute = none
  editable : ∀ n, d.attribute? n Overlay.editableAttribute = none
  listeners : d.elementListeners = []

/-- Marks are exact at the beginning, if the page has none. -/
theorem marksExact_new {d : Document} (h : Unmarked d) (config : EditorConfig) (time : String) :
    MarksExact (new d config time) := by
  have bare : ∀ name, (∀ n, d.attribute? n name = none) → Marks name none d := by
    intro name hname n
    simp [hname n]
  refine ⟨bare _ h.selected, bare _ h.editing, bare _ h.editable, ?_⟩
  intro n l
  exact (congrArg (List.count (n, l)) h.listeners).trans List.count_nil

/-- In every state of every run the marks and the listeners are exact, of every node, if the page leaves them
alone. -/
theorem marksExact_run {d : Document} (h : Unmarked d) (config : EditorConfig) (time : String)
    {xs : List Step} (hx : ∀ x ∈ xs, x.Spares markParts) :
    MarksExact ((new d config time).run xs) :=
  run_induction (marksExact_new h config time) fun x hin _ m => marksExact_step (hx x hin) m

theorem unmarked_empty : Unmarked .empty :=
  ⟨fun n => Document.attribute?_empty n _, fun n => Document.attribute?_empty n _,
    fun n => Document.attribute?_empty n _, rfl⟩

/-- An element is selected and edited, deleted, and put back by the page; then another one is edited. -/
theorem marksExact_run_delete :
    MarksExact ((new .empty {} "").run
      [.page (.appendIdentified 0 "p" "src/App.tsx:1:1"), .page (.appendText 1 "Hello"),
        .operate (.setMode .enabled), .operate (.event (.click 1)), .operate (.startEdit 2),
        .operate (.event (.click 2)), .operate (.command .deleteElement), .page (.appendChild 0 1),
        .operate (.startEdit 0)]) :=
  marksExact_run unmarked_empty {} "" (by decide)

end InPlace.Editor

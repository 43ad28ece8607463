import InPlace.Proofs.Browser.Events

/-!
# What is left when an editor lets go

An editor that is disabled ends the editing of a text, listens no more, and takes its marks and style sheets out of the
page. What becomes of the state, of the document and of the listeners is written down here in one step, as functions of
what the editor held.

Main statement: `disable_eq`.
-/

namespace InPlace.Browser

/-- The listeners of an editor that listens to the document. -/
def documentListeners (id : Nat) : List Listener :=
  DocumentEvent.all.map fun l => ⟨.node Document.top, l.name, true, .documentEvents id⟩

/-- The listeners of an editor that edits an element. -/
def elementListeners (id : Nat) (n : NodeId) : List Listener :=
  ElementEvent.all.map fun l => ⟨.node n, l.name, false, .elementEvents id⟩

/-! ## Frames -/

/-- One browser differs from another in its document and its listeners, and in what was said, only. -/
structure SameFrame (b b' : Browser) : Prop where
  window : b'.window = b.window
  observers : b'.observers = b.observers
  editors : b'.editors = b.editors
  handle : b'.handle = b.handle
  running : b'.running = b.running
  reactions : b'.reactions = b.reactions

theorem SameFrame.trans {b b' b'' : Browser} (h : b.SameFrame b') (h' : b'.SameFrame b'') : b.SameFrame b'' where
  window := h'.window.trans h.window
  observers := h'.observers.trans h.observers
  editors := h'.editors.trans h.editors
  handle := h'.handle.trans h.handle
  running := h'.running.trans h.running
  reactions := h'.reactions.trans h.reactions

theorem sameFrame_listeners (b : Browser) (ls : List Listener) : b.SameFrame { b with listeners := ls } :=
  ⟨rfl, rfl, rfl, rfl, rfl, rfl⟩

theorem Undisturbed.sameFrame {b b' : Browser} (h : b.Undisturbed b') : b.SameFrame b' :=
  ⟨h.window, h.observers, h.editors, h.handle, h.running, h.reactions⟩

/-- Giving up listeners takes exactly these away. -/
theorem foldl_unlisten (ls : List Listener) (p : Browser) :
    p.SameFrame (ls.foldl Browser.unlisten p) ∧ (ls.foldl Browser.unlisten p).document = p.document ∧
      (ls.foldl Browser.unlisten p).listeners = p.listeners.filter fun x => x ∉ ls := by
  induction ls generalizing p with
  | nil => exact ⟨⟨rfl, rfl, rfl, rfl, rfl, rfl⟩, rfl, (List.filter_eq_self.2 fun _ _ => by simp).symm⟩
  | cons l ls ih =>
    rw [List.foldl_cons]
    obtain ⟨frame, doc, listeners⟩ := ih (p.unlisten l)
    refine ⟨(sameFrame_listeners _ _).trans frame, doc, ?_⟩
    rw [listeners]
    show (p.listeners.filter _).filter _ = _
    rw [List.filter_filter]
    refine List.filter_congr fun x _ => ?_
    rw [Bool.eq_iff_iff]
    simp only [Bool.and_eq_true, decide_eq_true_eq, bne_iff_ne, List.mem_cons, not_or]
    exact And.comm

/-! ## The pieces -/

section

variable {e : Editor Browser NodeId} {p : Browser} {w : Wiring} {deal : Dispatcher}

/-- What the document is when the selection is released. -/
def Document.released (d : Document) : Option (Selection NodeId) → Document
  | none => d
  | some x => (d.setAttribute x.element Overlay.selectedAttribute none).setAttribute x.element "style" x.unmarkedStyle

/-- To release the selection is one change of the document, and the selection is forgotten. -/
theorem releaseSelection_eq (e : Editor Browser NodeId) : letI := page w deal
    e.releaseSelection = { e with
      page := e.page.onDocument fun d => d.released e.state.selection
      state := { e.state with selection := none } } := by
  let := page w deal
  unfold Editor.releaseSelection
  cases hs : e.state.selection with
  | none =>
    cases e with
    | mk p config state names =>
      cases state
      cases hs
      rfl
  | some x =>
    obtain ⟨n, style⟩ := x
    cases style <;> rfl

/-- What the document is when the editing of a text has ended. -/
def Document.unedited (d : Document) (commit : Bool) : Option (Session NodeId) → Document
  | none => d
  | some x => ((if commit then d else d.setTextContent x.element x.openingText).setAttribute x.element
      Overlay.editableAttribute none).setAttribute x.element Overlay.editingAttribute none

/-- The listeners that go with the editing of a text. -/
def sessionListeners (id : Nat) (x : Option (Session NodeId)) : List Listener :=
  match x with
  | none => []
  | some x => elementListeners id x.element

/-- To end an edit takes the listeners of the session away and puts the element back. -/
theorem endEdit_eq (id : Nat) (origin : String) (deal : Dispatcher) (e : Editor Browser NodeId) (commit : Bool) :
    letI := page (.wired id origin) deal
    ∃ p, e.endEdit commit = { e with page := p, state := { e.state with session := none } } ∧
      ((sessionListeners id e.state.session).foldl Browser.unlisten
        (e.page.onDocument fun d => d.unedited commit e.state.session)).Undisturbed p := by
  let := page (.wired id origin) deal
  unfold Editor.endEdit
  cases hs : e.state.session with
  | none =>
    cases e with
    | mk p config state names =>
      cases state
      cases hs
      exact ⟨p, rfl, .refl p⟩
  | some x =>
    dsimp only
    let q := (elementListeners id x.element).foldl Browser.unlisten
      (e.page.onDocument fun d => d.unedited commit (some x))
    let e₁ : Editor Browser NodeId := { e with page := q, state := { e.state with session := none } }
    let outcome := x.outcome (Page.textContent e.page x.element) commit
    let e₂ := e₁.log .debug "Inline edit ended" [("changed", toString outcome.changed)]
    obtain ⟨p, hp, said⟩ := tell_eq (.wired id origin) deal e₂ (.editEnded outcome)
    refine ⟨p, ?_, (undisturbed_log _ _).trans said⟩
    cases commit <;> exact hp

/-- What the document is when the hover is given up. -/
def Document.unhovered (d : Document) : Option NodeId → Document
  | none => d
  | some n => (d.setAttribute n Overlay.hoveredAttribute none).setAttribute n Overlay.fullWidthAttribute none

/-- To give the hover up without a word is one change of the document. -/
theorem clearHover_eq (e : Editor Browser NodeId) : letI := page w deal
    e.clearHover false = { e with
      page := e.page.onDocument fun d => d.unhovered e.state.hover
      state := { e.state with hover := none } } := by
  let := page w deal
  unfold Editor.clearHover
  cases hs : e.state.hover with
  | none =>
    cases e with
    | mk p config state names =>
      cases state
      cases hs
      rfl
  | some n => rfl

/-! ## All of it -/

/-- The document of an editor that is disabled, before its style sheets are removed. -/
def Document.unmarked (d : Document) (s : EditorState NodeId) : Document :=
  ((((d.unedited false s.session).setBodyCursor none).setBodyAttribute Overlay.savingAttribute none).released
    s.selection).unhovered s.hover

/-- What the document is when the editor has let go of everything. -/
def Document.undressed (d : Document) (s : EditorState NodeId) : Document :=
  ((d.unmarked s).removeStylesheet Overlay.stylesId).removeStylesheet Overlay.scrollId

/-- The listeners that an editor gives up when it is disabled. -/
def givenUp (id : Nat) (s : EditorState NodeId) : List Listener :=
  sessionListeners id s.session ++ if s.listening then documentListeners id else []

/-- Not to listen any more takes the listeners of the document away. -/
theorem unlisten_eq (id : Nat) (origin : String) (deal : Dispatcher) (e : Editor Browser NodeId) :
    letI := page (.wired id origin) deal
    e.unlisten = { e with
      page := (if e.state.listening then documentListeners id else []).foldl Browser.unlisten e.page
      state := { e.state with listening := false } } := by
  let := page (.wired id origin) deal
  unfold Editor.unlisten
  cases hl : e.state.listening with
  | true => rfl
  | false =>
    cases e with
    | mk p config state names =>
      cases state
      cases hl
      rfl

/-- Being disabled in one step: what becomes of the state, of the document and of the listeners. -/
theorem disable_eq (id : Nat) (origin : String) (deal : Dispatcher) (e : Editor Browser NodeId) :
    letI := page (.wired id origin) deal
    ∃ p, e.disable = { e with page := p, state := { ({} : EditorState NodeId) with ready := e.state.ready } } ∧
      e.page.SameFrame p ∧ p.document = e.page.document.undressed e.state ∧
      p.listeners = e.page.listeners.filter fun l => l ∉ givenUp id e.state := by
  let := page (.wired id origin) deal
  -- one equation for each step of disabling; telling the host comes in between and disturbs neither document nor
  -- listeners
  obtain ⟨p₁, h₁, said₁⟩ := endEdit_eq id origin deal e false
  obtain ⟨frame₁, document₁, listeners₁⟩ := foldl_unlisten (sessionListeners id e.state.session)
    (e.page.onDocument fun d => d.unedited false e.state.session)
  let e₁ : Editor Browser NodeId := { e with page := p₁, state := { e.state with session := none } }
  have unlistened := foldl_unlisten (if e.state.listening then documentListeners id else []) p₁
  have h₂ := unlisten_eq id origin deal e₁
  rw [show e₁.page = p₁ from rfl, show e₁.state.listening = e.state.listening from rfl] at h₂
  generalize (if e.state.listening then documentListeners id else []).foldl Browser.unlisten p₁ = p₂ at unlistened h₂
  obtain ⟨frame₂, document₂, listeners₂⟩ := unlistened
  let e₃ : Editor Browser NodeId := { e₁ with
    page := p₂.onDocument fun d => (d.setBodyCursor none).setBodyAttribute Overlay.savingAttribute none
    state := { e₁.state with listening := false } }
  have h₃ : ((e₁.unlisten).setBodyCursor none).setBodyAttribute Overlay.savingAttribute none = e₃ := by
    rw [h₂]
    rfl
  let e₅ : Editor Browser NodeId := { e₃ with
    page := e₃.page.onDocument fun d => (d.released e.state.selection).unhovered e.state.hover
    state := { e₃.state with selection := none, hover := none } }
  have h₅ : e₃.releaseSelection.clearHover false = e₅ := by
    rw [releaseSelection_eq, clearHover_eq]
    rfl
  obtain ⟨p₆, h₆, said₆⟩ := enter_eq (.wired id origin) deal
    ((e₅.removeStylesheet Overlay.stylesId).removeStylesheet Overlay.scrollId) .disabled
  refine ⟨p₆, ?_, ?_, ?_, ?_⟩
  · unfold Editor.disable
    dsimp only
    rw [h₁, h₃, h₅]
    exact h₆
  · have before : e.page.SameFrame (e.page.onDocument fun d => d.unedited false e.state.session) :=
      ⟨rfl, rfl, rfl, rfl, rfl, rfl⟩
    have after : p₂.SameFrame ((e₅.removeStylesheet Overlay.stylesId).removeStylesheet Overlay.scrollId).page :=
      ⟨rfl, rfl, rfl, rfl, rfl, rfl⟩
    exact (((before.trans frame₁).trans said₁.sameFrame).trans frame₂).trans (after.trans said₆.sameFrame)
  · rw [said₆.document]
    show Document.removeStylesheet (Document.removeStylesheet (Document.unhovered (Document.released
      ((p₂.document.setBodyCursor none).setBodyAttribute _ none) _) _) _) _ = _
    rw [document₂, said₁.document, document₁]
    rfl
  · rw [said₆.listeners]
    show p₂.listeners = _
    rw [listeners₂, said₁.listeners, listeners₁, List.filter_filter]
    refine List.filter_congr fun l _ => ?_
    rw [Bool.eq_iff_iff]
    simp only [givenUp, Bool.and_eq_true, decide_eq_true_eq, List.mem_append, not_or]
    exact And.comm

end

end InPlace.Browser

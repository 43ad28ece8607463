import InPlace.Proofs.Browser.LettingGo
import InPlace.Proofs.Browser.Sheets

/-!
# Cycles of modes

An editor that is asked for one mode after the other, and for nothing else, dresses the document when it becomes active
and undresses it when it is disabled again. What it leaves behind is a body that has lost its own cursor and its own mark
of the saving mode, if it had any; everything else is as it was.

Main statement: `Phase.setMode`.
-/

namespace InPlace

namespace EditorState

variable {N : Type}

/-- Nothing is selected, hovered or edited. -/
structure HoldsNothing (s : EditorState N) : Prop where
  selection : s.selection = none
  hover : s.hover = none
  session : s.session = none

end EditorState

namespace Browser

/-- An element that has lost its cursor and its mark of the saving mode, and nothing else. -/
structure Element.Uncursored (e e' : Element) : Prop extends e.Restyled e' where
  saving : e'.attributes.get? Overlay.savingAttribute = none
  dropped : e'.declarations = e.declarations.drop "cursor"

/-! ## What the editor does to the browser in a change of modes -/

/-- The browser `p` came of `b` in a reaction of the editor: its document is `d` with style sheets, and to the listeners
`ls` the editor has added its `own`. -/
structure Stage (b : Browser) (d : Document) (ls : List Listener) (sheets : List (NodeId × String))
    (own : List Listener) (p : Browser) : Prop where
  frame : b.SameFrame p
  document : d.Dressed p.document sheets
  listeners : p.listeners = ls ++ own

section

variable {b p p' : Browser} {d : Document} {ls own : List Listener} {sheets : List (NodeId × String)}
  {w : Wiring} {deal : Dispatcher} {e : Editor Browser NodeId} {id : String}

theorem Stage.undisturbed (h : b.Stage d ls sheets own p) (hp : p.Undisturbed p') : b.Stage d ls sheets own p' :=
  ⟨h.frame.trans hp.sameFrame, hp.document ▸ h.document, hp.listeners.trans h.listeners⟩

theorem Stage.onDocument {f : Document → Document} {sheets' : List (NodeId × String)}
    (h : b.Stage d ls sheets own p) (hf : d.Dressed (f p.document) sheets') :
    b.Stage d ls sheets' own (p.onDocument f) :=
  ⟨h.frame.trans ⟨rfl, rfl, rfl, rfl, rfl, rfl⟩, hf, h.listeners⟩

/-- A style sheet is put into the page where that has a head. -/
theorem Stage.injectStylesheet (w : Wiring) (deal : Dispatcher) (h : b.Stage d ls sheets own e.page) (hd : d.Rooted)
    (hid : d.byId? id = none) (hs : id ∉ sheets.map Prod.snd) (css : String) : letI := page w deal
    ∃ p new, e.injectStylesheet id css = { e with page := p } ∧ b.Stage d ls (sheets ++ new) own p ∧
      (new = [] ∧ d.head? = none ∨ ∃ s, new = [(s, id)]) := by
  let := page w deal
  have kept : e.removeStylesheet id = e := by
    have same : e.page.onDocument (fun d => d.removeStylesheet id) = e.page := by
      unfold Browser.onDocument
      dsimp only
      rw [Document.removeStylesheet_of_absent (h.document.byId?_eq_none hd hid hs)]
    exact congrArg (fun page => { e with page }) same
  unfold Editor.injectStylesheet
  rw [kept]
  cases hi : e.page.document.injectStylesheet id css with
  | ok d' =>
    have done : (Page.injectStylesheet e.page id css : Except PageError Browser) =
        .ok (e.page.onDocument fun _ => d') := by
      show (e.page.document.injectStylesheet id css).map _ = _
      rw [hi]
      rfl
    exact ⟨_, [(e.page.document.nodes.fresh, id)], tryPage_ok done _ _,
      h.onDocument (h.document.injectStylesheet hd hi), .inr ⟨_, rfl⟩⟩
  | error fault =>
    have failed : (Page.injectStylesheet e.page id css : Except PageError Browser) = .error fault := by
      show (e.page.document.injectStylesheet id css).map _ = _
      rw [hi]
      rfl
    refine ⟨_, [], tryPage_error failed _ _, ?_, .inl ⟨rfl, ?_⟩⟩
    · rw [List.append_nil]
      exact h.undisturbed (undisturbed_log _ _)
    · unfold Document.injectStylesheet at hi
      rw [h.document.head? hd] at hi
      split at hi
      · assumption
      · cases hi

/-- Listening to events that the editor does not listen to yet puts its listeners behind the others. -/
theorem listen_foldl (n : Nat) (origin : String) (deal : Dispatcher) (ds : List DocumentEvent)
    (hnodup : (ds.map DocumentEvent.name).Nodup)
    (hnew : ∀ l ∈ ds, ∀ x ∈ e.page.listeners, x ≠ ⟨.node Document.top, l.name, true, .documentEvents n⟩) :
    letI := page (.wired n origin) deal
    ∃ p, (ds.foldl (fun e l => e.tryPage (fun page => Page.listen page l) "Failed to add listener"
        [("event", l.name)]) e) = { e with page := p } ∧ e.page.SameFrame p ∧ p.document = e.page.document ∧
      p.listeners = e.page.listeners ++
        ds.map fun l => ⟨.node Document.top, l.name, true, .documentEvents n⟩ := by
  let := page (.wired n origin) deal
  induction ds generalizing e with
  | nil => exact ⟨e.page, rfl, ⟨rfl, rfl, rfl, rfl, rfl, rfl⟩, rfl, (List.append_nil _).symm⟩
  | cons l ds ih =>
    have names := List.nodup_cons.1 hnodup
    have missing : (⟨.node Document.top, l.name, true, .documentEvents n⟩ : Listener) ∉ e.page.listeners :=
      fun hin => hnew l List.mem_cons_self _ hin rfl
    have first : (e.tryPage (fun page => Page.listen page l) "Failed to add listener" [("event", l.name)]) =
        { e with page := { e.page with
          listeners := e.page.listeners ++ [⟨.node Document.top, l.name, true, .documentEvents n⟩] } } := by
      show { e with page := e.page.listen ⟨.node Document.top, l.name, true, .documentEvents n⟩ } = _
      unfold Browser.listen
      rw [if_neg missing]
    have apart : ∀ m ∈ ds, ∀ x ∈ e.page.listeners ++ [⟨.node Document.top, l.name, true, .documentEvents n⟩],
        x ≠ ⟨.node Document.top, m.name, true, .documentEvents n⟩ := by
      intro m hm x hx
      rcases List.mem_append.1 hx with hx | hx
      · exact hnew m (List.mem_cons_of_mem _ hm) x hx
      · rw [List.mem_singleton.1 hx]
        intro heq
        have same : l.name = m.name := congrArg Listener.type heq
        exact names.1 (same ▸ List.mem_map_of_mem hm)
    rw [List.foldl_cons, first]
    obtain ⟨p, hp, frame, doc, listeners⟩ := ih (e := { e with page := { e.page with
        listeners := e.page.listeners ++ [⟨.node Document.top, l.name, true, .documentEvents n⟩] } }) names.2 apart
    refine ⟨p, hp, (sameFrame_listeners _ _).trans frame, doc, ?_⟩
    rw [listeners, List.map_cons, List.append_assoc, List.singleton_append]

/-! ## Changes of modes -/

/-- Listening to the document adds the editor's listeners. -/
theorem Stage.listen {n : Nat} (origin : String) (deal : Dispatcher) (h : b.Stage d ls sheets [] e.page)
    (hl : e.state.listening = false)
    (hls : ∀ l ∈ ls, l.callback ≠ .documentEvents n) : letI := page (.wired n origin) deal
    ∃ p, e.listen = { e with page := p, state := { e.state with listening := true } } ∧
      b.Stage d ls sheets (documentListeners n) p := by
  let := page (.wired n origin) deal
  have listeners : e.page.listeners = ls := h.listeners.trans (List.append_nil ls)
  obtain ⟨p, hp, frame, doc, more⟩ := listen_foldl (e := e) n origin deal DocumentEvent.all (by decide)
    fun l _ x hx heq => hls x (listeners ▸ hx) (congrArg Listener.callback heq)
  refine ⟨p, ?_, h.frame.trans frame, doc ▸ h.document, more.trans (congrArg (· ++ _) listeners)⟩
  unfold Editor.listen
  rw [if_neg (by rw [hl]; exact Bool.false_ne_true), hp]

/-- A body whose cursor and whose mark of the saving mode were taken away. -/
theorem Document.Dressed.unmark {d d' : Document} (h : d.Dressed d' sheets) (hd : d.Rooted) {n : NodeId}
    {x : Element} (hn : d.body? = some n) (hx : d.element? n = some x) :
    ∃ x', ((d'.setBodyCursor none).setBodyAttribute Overlay.savingAttribute none).element? n = some x' ∧
      x.Uncursored x' := by
  obtain ⟨y, hy, restyled⟩ := h.body n x hn hx
  have hn' : d'.body? = some n := (h.body? hd).trans hn
  have cursor : d'.setBodyCursor none = d'.modifyElement n fun e => e.dropDeclaration "cursor" := by
    unfold Document.setBodyCursor
    rw [hn']
    rfl
  have dressed : d.Dressed (d'.setBodyCursor none) sheets := h.setBodyCursor hd (by decide)
  have saving : (d'.setBodyCursor none).setBodyAttribute Overlay.savingAttribute none =
      (d'.setBodyCursor none).setAttribute n Overlay.savingAttribute none := by
    unfold Document.setBodyAttribute
    rw [(dressed.body? hd).trans hn]
  refine ⟨{ y.dropDeclaration "cursor" with
    attributes := (y.dropDeclaration "cursor").attributes.drop Overlay.savingAttribute }, ?_, ?_⟩
  · rw [saving, cursor]
    show ((d'.modifyElement n _).modifyElement n _).element? n = _
    rw [Document.element?_modifyElement, if_pos rfl, Document.element?_modifyElement, if_pos rfl, hy]
    rfl
  · -- the cursor is a declaration, the mark of the saving mode an attribute: neither change hides the other
    have others : ∀ name, name ≠ Overlay.savingAttribute →
        ((y.dropDeclaration "cursor").attributes.drop Overlay.savingAttribute).get? name =
          (y.dropDeclaration "cursor").attributes.get? name := by
      intro name hname
      rw [Table.get?_drop, if_neg (Ne.symm hname)]
    refine ⟨(restyled.trans y.restyled_dropCursor).trans (Element.restyled_of_saving _ others), ?_, ?_⟩
    · rw [Table.get?_drop, if_pos rfl]
    · rw [Element.declarations_eq]
      dsimp only
      rw [others "style" (by decide), ← Element.declarations_eq, Element.declarations_dropDeclaration]
      exact restyled.declarations

/-- What holds between two changes of modes, while nothing is selected, hovered or edited. -/
structure Phase (b : Browser) (d : Document) (ls : List Listener) (n : Nat) (e : Editor Browser NodeId) : Prop where
  free : e.state.HoldsNothing
  listening : e.state.listening = e.state.mode.isActive
  stage : ∃ sheets, b.Stage d ls sheets (if e.state.mode.isActive then documentListeners n else []) e.page ∧
    (sheets = [] ∨ e.state.mode.isActive = true ∧ ∃ s c, sheets = [(s, Overlay.stylesId), (c, Overlay.scrollId)])
  body : e.state.mode = .disabled → ∀ m x, d.body? = some m → d.element? m = some x →
    ∃ x', e.page.document.element? m = some x' ∧ (x' = x ∨ x.Uncursored x')

/-- A phase goes on while nothing is disturbed. -/
theorem Phase.undisturbed {n : Nat} (h : b.Phase d ls n e) (hp : e.page.Undisturbed p) :
    b.Phase d ls n { e with page := p } where
  free := h.free
  listening := h.listening
  stage := by
    obtain ⟨sheets, stage, hs⟩ := h.stage
    exact ⟨sheets, stage.undisturbed hp, hs⟩
  body hm m x hb hx := by
    obtain ⟨x', hx', same⟩ := h.body hm m x hb hx
    refine ⟨x', ?_, same⟩
    rw [← hx']
    exact congrArg (fun d : Document => d.element? m) hp.document

/-- What the page and the editor's setting are taken to be. -/
structure Bare (d : Document) (ls : List Listener) (n : Nat) (config : EditorConfig) : Prop where
  rooted : d.Rooted
  focused : ∀ m, d.focused = some m → m < d.nodes.fresh
  styles : d.byId? Overlay.stylesId = none
  scroll : d.byId? Overlay.scrollId = none
  listeners : ∀ l ∈ ls, l.callback ≠ .documentEvents n
  cursor : ';' ∉ config.cursor.toList

variable {n : Nat} {origin : String}

/-- Enabling begins the phase with listeners, a style sheet and the cursor. -/
theorem Phase.enable (h : b.Phase d ls n e) (hb : Bare d ls n e.config) (hm : e.state.mode = .disabled) :
    letI := page (.wired n origin) deal
    b.Phase d ls n e.enable := by
  let := page (.wired n origin) deal
  have inactive : e.state.mode.isActive = false := by
    rw [hm]
    rfl
  obtain ⟨sheets, stage, hs⟩ := h.stage
  have bare : sheets = [] := hs.resolve_right fun hs => by
    rw [inactive] at hs
    exact Bool.false_ne_true hs.1
  subst bare
  rw [inactive, if_neg Bool.false_ne_true] at stage
  obtain ⟨p₁, new₁, h₁, stage₁, hnew₁⟩ := stage.injectStylesheet (.wired n origin) deal hb.rooted
    hb.styles (by simp) Overlay.styles
  obtain ⟨p₂, h₂, stage₂⟩ := Stage.listen (e := { e with page := p₁ }) origin deal stage₁
    (h.listening.trans inactive) hb.listeners
  have stage₃ := stage₂.onDocument (f := fun d => d.setBodyCursor (some e.config.cursor))
    (stage₂.document.setBodyCursor hb.rooted hb.cursor)
  have stage₄ := stage₃.onDocument (f := fun d => d.setBodyAttribute Overlay.savingAttribute none)
    (stage₃.document.setSaving hb.rooted none)
  have apart : Overlay.scrollId ∉ ([] ++ new₁).map Prod.snd := by
    rcases hnew₁ with ⟨rfl, -⟩ | ⟨s, rfl⟩
    · exact List.not_mem_nil
    · show Overlay.scrollId ∉ [Overlay.stylesId]
      decide
  obtain ⟨p₅, new₂, h₅, stage₅, hnew₂⟩ := Stage.injectStylesheet
    (e := { e with page := _, state := { e.state with listening := true } }) (.wired n origin) deal stage₄ hb.rooted
    hb.scroll apart Overlay.scrollStyles
  obtain ⟨p₆, h₆, said⟩ := enter_eq (.wired n origin) deal
    { e with page := p₅, state := { e.state with listening := true } } .enabled
  have done : e.enable =
      { e with page := p₆, state := { e.state with listening := true, mode := .enabled } } := by
    unfold Editor.enable
    rw [h₁]
    dsimp only
    rw [h₂]
    exact (congrArg (fun e : Editor Browser NodeId => e.enter .enabled) h₅).trans h₆
  rw [done]
  refine ⟨⟨h.free.selection, h.free.hover, h.free.session⟩, rfl, ⟨_, stage₅.undisturbed said, ?_⟩, fun hm => by cases hm⟩
  rcases hnew₁ with ⟨rfl, hhead⟩ | ⟨s, rfl⟩
  · rcases hnew₂ with ⟨rfl, -⟩ | ⟨c, rfl⟩
    · exact .inl rfl
    · have head := stage₅.document.head (by simp)
      rw [hhead] at head
      cases head
  · rcases hnew₂ with ⟨rfl, hhead⟩ | ⟨c, rfl⟩
    · have head := stage₅.document.head (by simp)
      rw [hhead] at head
      cases head
    · exact .inr ⟨rfl, s, c, rfl⟩

theorem endEdit_of_no_session (h : e.state.session = none) (commit : Bool) : letI := page w deal
    e.endEdit commit = e := by
  unfold Editor.endEdit
  rw [h]

theorem releaseSelection_of_none (h : e.state.selection = none) : letI := page w deal
    e.releaseSelection = e := by
  unfold Editor.releaseSelection
  rw [h]

theorem clearHover_of_none (h : e.state.hover = none) (notify : Bool) : letI := page w deal
    e.clearHover notify = e := by
  unfold Editor.clearHover
  rw [h]

/-- Saving takes up the mark of the body and the sheet for scrolling. -/
theorem Phase.enterSaving (h : b.Phase d ls n e) (hb : Bare d ls n e.config) (hm : e.state.mode = .enabled) :
    letI := page (.wired n origin) deal
    b.Phase d ls n e.enterSaving := by
  let := page (.wired n origin) deal
  have active : e.state.listening = true := by
    rw [h.listening, hm]
    rfl
  obtain ⟨sheets, stage, hs⟩ := h.stage
  rw [hm] at stage hs
  have marked := stage.onDocument (f := fun d => d.setBodyAttribute Overlay.savingAttribute (some "true"))
    (stage.document.setSaving hb.rooted _)
  let e₁ : Editor Browser NodeId := e.setBodyAttribute Overlay.savingAttribute (some "true")
  have ended : e₁.endEdit false = e₁ := endEdit_of_no_session (e := e₁) h.free.session false
  have released : e₁.releaseSelection = e₁ := releaseSelection_of_none (e := e₁) h.free.selection
  have cleared : e₁.clearHover false = e₁ := clearHover_of_none (e := e₁) h.free.hover false
  have done : e.enterSaving = { e₁ with state := { e₁.state with mode := .saving } } := by
    show ({ ((e₁.endEdit false).releaseSelection).clearHover false with state := _ } : Editor Browser NodeId) = _
    rw [ended, released, cleared]
  rw [done]
  exact ⟨⟨h.free.selection, h.free.hover, h.free.session⟩, active,
    ⟨sheets, marked, hs⟩, fun hm => nomatch hm⟩

/-- After saving the phase is that of editing again. -/
theorem Phase.leaveSaving (h : b.Phase d ls n e) (hb : Bare d ls n e.config) (hm : e.state.mode = .saving) :
    letI := page (.wired n origin) deal
    b.Phase d ls n e.leaveSaving := by
  let := page (.wired n origin) deal
  obtain ⟨p, hp, said⟩ := enter_eq (.wired n origin) deal
    { e with page := e.page.onDocument fun d => d.setBodyAttribute Overlay.savingAttribute none } .enabled
  have done : e.leaveSaving = { e with page := p, state := { e.state with mode := .enabled } } := hp
  have active : e.state.listening = true := by
    rw [h.listening, hm]
    rfl
  obtain ⟨sheets, stage, hs⟩ := h.stage
  rw [hm] at stage hs
  have unmarked := stage.onDocument (f := fun d => d.setBodyAttribute Overlay.savingAttribute none)
    (stage.document.setSaving hb.rooted none)
  rw [done]
  exact ⟨⟨h.free.selection, h.free.hover, h.free.session⟩, active,
    ⟨sheets, unmarked.undisturbed said, hs⟩, fun hm => by cases hm⟩

/-- The style sheets of the editor are removed, as far as they are there. -/
theorem Document.Dressed.removeStylesheets {d d' : Document} (h : d.Dressed d' sheets) (hb : Bare d ls n e.config)
    (hs : sheets = [] ∨ ∃ s c, sheets = [(s, Overlay.stylesId), (c, Overlay.scrollId)]) :
    d.Dressed ((d'.removeStylesheet Overlay.stylesId).removeStylesheet Overlay.scrollId) [] := by
  rcases hs with rfl | ⟨s, c, rfl⟩
  · rw [Document.removeStylesheet_of_absent (h.byId?_eq_none hb.rooted hb.styles (by simp)),
      Document.removeStylesheet_of_absent (h.byId?_eq_none hb.rooted hb.scroll (by simp))]
    exact h
  · have one := h.removeStylesheet hb.rooted hb.focused hb.styles (by
      show Overlay.stylesId ∉ [Overlay.scrollId]
      decide)
    exact one.removeStylesheet hb.rooted hb.focused hb.scroll (by simp)

/-- The document of an editor that holds nothing is undressed by way of its body. -/
theorem undressed_of_holdsNothing (d : Document) {s : EditorState NodeId} (h : s.HoldsNothing) :
    d.undressed s = (((d.setBodyCursor none).setBodyAttribute Overlay.savingAttribute none).removeStylesheet
      Overlay.stylesId).removeStylesheet Overlay.scrollId := by
  unfold Document.undressed Document.unmarked
  rw [h.session, h.selection, h.hover]
  rfl

/-- Listening no more takes exactly the editor's listeners away. -/
theorem filter_givenUp (s : EditorState NodeId) (h : s.session = none) (hl : s.listening = true)
    (hls : ∀ l ∈ ls, l.callback ≠ .documentEvents n) :
    (ls ++ documentListeners n).filter (fun l => l ∉ givenUp n s) = ls := by
  have own : givenUp n s = documentListeners n := by
    unfold givenUp
    rw [h, hl]
    rfl
  have kept : ls.filter (fun l => l ∉ documentListeners n) = ls := by
    refine List.filter_eq_self.2 fun l hl => decide_eq_true fun hin => ?_
    obtain ⟨event, -, rfl⟩ := List.mem_map.1 hin
    exact hls _ hl rfl
  have gone : (documentListeners n).filter (fun l => l ∉ documentListeners n) = [] :=
    List.filter_eq_nil_iff.2 fun l hl => by simpa using hl
  rw [own, List.filter_append, kept, gone, List.append_nil]

/-- Disabling ends the phase: listeners, sheets, mark and cursor are gone. -/
theorem Phase.disable (h : b.Phase d ls n e) (hb : Bare d ls n e.config) (hm : e.state.mode.isActive = true) :
    letI := page (.wired n origin) deal
    b.Phase d ls n e.disable := by
  let := page (.wired n origin) deal
  obtain ⟨sheets, stage, hs⟩ := h.stage
  rw [hm, if_pos rfl] at stage
  obtain ⟨p, he, frame, document, listeners⟩ := disable_eq n origin deal e
  rw [undressed_of_holdsNothing _ h.free] at document
  rw [stage.listeners, filter_givenUp e.state h.free.session (h.listening.trans hm) hb.listeners] at listeners
  -- both style sheets are still at the end of the head, so both are found by their ids
  have bare : d.Dressed p.document [] := by
    rw [document]
    exact Document.Dressed.removeStylesheets (((stage.document.setBodyCursor hb.rooted (by decide)).setSaving hb.rooted
      none)) hb (hs.imp_right And.right)
  rw [he]
  refine ⟨⟨rfl, rfl, rfl⟩, rfl, ⟨[], ⟨stage.frame.trans frame, bare, ?_⟩, .inl rfl⟩, fun _ m x hbody hx => ?_⟩
  · rw [listeners]
    exact (List.append_nil ls).symm
  · obtain ⟨x', hx', same⟩ := stage.document.unmark hb.rooted hbody hx
    refine ⟨x', ?_, .inr same⟩
    show p.document.element? m = _
    rw [document, Document.element?_removeStylesheet, Document.element?_removeStylesheet]
    exact hx'

/-- Every command to change the mode leads from phase to phase. -/
theorem Phase.setMode (h : b.Phase d ls n e) (hb : Bare d ls n e.config) (m : EditMode) :
    letI := page (.wired n origin) deal
    b.Phase d ls n (e.setMode m).1 := by
  let := page (.wired n origin) deal
  have logged : ∀ {e' : Editor Browser NodeId} (level : LogLevel) (message : String) (fields : List (String × String)),
      b.Phase d ls n e' → b.Phase d ls n (e'.log level message fields) :=
    fun _ _ _ h => h.undisturbed (undisturbed_log _ _)
  unfold Editor.setMode
  dsimp only
  by_cases hsame : e.state.mode = m
  · rw [if_pos hsame]
    exact logged _ _ _ h
  · rw [if_neg hsame]
    by_cases hcan : Editor.canFollow e.state.mode m = true
    · rw [if_pos hcan]
      refine logged _ _ _ ?_
      cases hm : e.state.mode with
      | disabled => exact h.enable hb hm
      | enabled =>
        cases m with
        | disabled => exact h.disable hb (by rw [hm]; rfl)
        | enabled => exact absurd hm hsame
        | saving => exact h.enterSaving hb hm
      | saving =>
        cases m with
        | disabled => exact h.disable hb (by rw [hm]; rfl)
        | enabled => exact h.leaveSaving hb hm
        | saving => exact absurd hm hsame
    · rw [if_neg hcan]
      exact logged _ _ _ h

end

end Browser

end InPlace

import InPlace.Proofs.Editing.Run

/-!
# What no editor looks at

An editor reads the document of its page and the time of day. What it has logged and what it has sent it
never reads. So two editors whose pages differ in such things only go on alike: whatever they are asked to
do, they end in the same state and give the same answers, and their pages again differ in such things only.

`Unread R` says that pages related by `R` cannot be told apart, `Alike R e e'` that two editors are in the
same state in related pages. There is one statement for each function of the editor, named for it, of which
those about the operations are composed.

Main statements: `Alike.handleCommand`, `Alike.handleEvent` and `Alike.step`.
-/

namespace InPlace

open Headless (Document)

namespace Headless

/-- What an editor can read of a page. -/
def bare (h : Headless) : Headless :=
  { document := h.document, clock := h.clock }

/-- The page after a message was sent, or with the log entry that it was not. -/
def say (h : Headless) (m : Envelope) (failure : LogEntry) : Headless :=
  if h.outbox.failing then { h with journal := h.journal ++ [failure] }
  else { h with outbox.sent := h.outbox.sent ++ [m] }

/-- The document in which an element is marked as edited. -/
def Document.markEdited (d : Document) (n : NodeId) : Except PageError Document :=
  (d.setAttribute n Overlay.editingAttribute "true").bind fun d =>
    d.setAttribute n Overlay.editableAttribute "true"

/-- A relation between pages that an editor can neither see nor break. -/
structure Unread (R : Headless → Headless → Prop) : Prop where
  bare : ∀ {p q}, R p q → q.bare = p.bare
  document : ∀ {p q}, R p q → ∀ d, R { p with document := d } { q with document := d }
  clock : ∀ {p q}, R p q → ∀ time, R { p with clock := time } { q with clock := time }
  channel : ∀ {p q}, R p q → ∀ failing,
    R { p with outbox.failing := failing } { q with outbox.failing := failing }
  log : ∀ {p q}, R p q → ∀ x,
    R { p with journal := p.journal ++ [x] } { q with journal := q.journal ++ [x] }
  say : ∀ {p q}, R p q → ∀ m failure, R (p.say m failure) (q.say m failure)

end Headless

open Headless (Unread)

namespace Editor

/-- To tell the host something is to say it on the page, or to log that it could not be said. -/
theorem tell_eq_say (e : HeadlessEditor) (n : Notice) :
    e.tell n = { e with page := e.page.say (.ofNotice n e.config.editorTag) ⟨.error,
      "Failed to post message", [("kind", n.kind), ("error", PostError.noParent.message)]⟩ } := by
  rw [tell_eq]
  unfold Headless.say
  split <;> rfl

/-- Two editors in the same state, in pages that neither can tell apart. -/
structure Alike (R : Headless → Headless → Prop) (e e' : HeadlessEditor) : Prop where
  unread : Unread R
  page : R e.page e'.page
  config : e'.config = e.config
  state : e'.state = e.state
  names : e'.names = e.names

/-- Two editors that are alike and that give the same answer. -/
structure AlikeWith {β : Type} (R : Headless → Headless → Prop) (r r' : HeadlessEditor × β) : Prop where
  alike : Alike R r.1 r'.1
  answer : r'.2 = r.2

namespace Alike

variable {R : Headless → Headless → Prop} {e e' : HeadlessEditor} (h : Alike R e e')

include h

/-! ## The page, the log and the host -/

/-- What an editor reads of its page is the same. -/
theorem read {β : Type} (g : Headless → β) : g e'.page.bare = g e.page.bare :=
  congrArg g (h.unread.bare h.page)

theorem document_eq : e'.page.document = e.page.document :=
  h.read Headless.document

theorem withDocument (d : Document) :
    Alike R { e with page := { e.page with document := d } }
      { e' with page := { e'.page with document := d } } :=
  { h with page := h.unread.document h.page d }

theorem onDocument (f : Document → Document) :
    Alike R { e with page := e.page.onDocument f } { e' with page := e'.page.onDocument f } := by
  unfold Headless.onDocument
  rw [h.document_eq]
  exact h.withDocument _

theorem withState (state : EditorState NodeId) : Alike R { e with state } { e' with state } :=
  { h with state := rfl }

theorem withNames (names : NameCache NodeId) : Alike R { e with names } { e' with names } :=
  { h with names := rfl }

theorem log (level : LogLevel) (message : String) (fields : List (String × String)) :
    Alike R (e.log level message fields) (e'.log level message fields) :=
  { h with page := h.unread.log h.page _ }

/-- A change of the document that may fail does so in both pages or in none. -/
theorem tryDocument_cases (f : Document → Except PageError Document) :
    (∃ fault, e.page.tryDocument f = .error fault ∧ e'.page.tryDocument f = .error fault) ∨
      ∃ d, e.page.tryDocument f = .ok { e.page with document := d } ∧
        e'.page.tryDocument f = .ok { e'.page with document := d } := by
  unfold Headless.tryDocument
  rw [h.document_eq]
  cases f e.page.document with
  | ok d => exact .inr ⟨d, rfl, rfl⟩
  | error fault => exact .inl ⟨fault, rfl, rfl⟩

/-- A change of the document that may fail keeps two editors alike. -/
theorem tryDocument (f : Document → Except PageError Document) (failure : String)
    (fields : List (String × String)) :
    Alike R (e.tryPage (fun page => page.tryDocument f) failure fields)
      (e'.tryPage (fun page => page.tryDocument f) failure fields) := by
  unfold tryPage
  rcases h.tryDocument_cases f with ⟨fault, h1, h2⟩ | ⟨d, h1, h2⟩
  · simp only [h1, h2]
    exact h.log _ _ _
  · simp only [h1, h2]
    exact h.withDocument d

/-- Two editors that are alike tell their hosts the same. -/
theorem tell (n : Notice) : Alike R (e.tell n) (e'.tell n) := by
  rw [tell_eq_say, tell_eq_say]
  refine { h with page := ?_ }
  dsimp only
  rw [h.config]
  exact h.unread.say h.page _ _

theorem setAttribute (n : NodeId) (name value failure : String) :
    Alike R (e.setAttribute n name value failure) (e'.setAttribute n name value failure) :=
  h.tryDocument (fun d => d.setAttribute n name value) failure []

theorem removeAttribute (n : NodeId) (name : String) :
    Alike R (e.removeAttribute n name) (e'.removeAttribute n name) :=
  h.onDocument fun d => d.removeAttribute n name

theorem setBodyAttribute (name : String) (value : Option String) :
    Alike R (e.setBodyAttribute name value) (e'.setBodyAttribute name value) :=
  h.onDocument fun d => d.setBodyAttribute name value

theorem setBodyCursor (cursor : Option String) :
    Alike R (e.setBodyCursor cursor) (e'.setBodyCursor cursor) :=
  h.onDocument fun d => { d with bodyCursor := cursor }

theorem removeStylesheet (id : String) : Alike R (e.removeStylesheet id) (e'.removeStylesheet id) :=
  h.onDocument fun d => d.removeStylesheet id

theorem injectStylesheet (id css : String) :
    Alike R (e.injectStylesheet id css) (e'.injectStylesheet id css) :=
  (h.removeStylesheet id).onDocument fun d => d.injectStylesheet id css

/-- Changes one after the other, each of which may fail. -/
theorem tryEach {α : Type} {g : α → Headless → Except PageError Headless}
    {f : α → Document → Except PageError Document} (hg : ∀ x page, g x page = page.tryDocument (f x))
    (failure : String) (fields : α → List (String × String)) (xs : List α) :
    Alike R (xs.foldl (fun e x => e.tryPage (g x) failure (fields x)) e)
      (xs.foldl (fun e x => e.tryPage (g x) failure (fields x)) e') := by
  induction xs generalizing e e' with
  | nil => exact h
  | cons x xs ih =>
    have changed := h.tryDocument (f x) failure (fields x)
    rw [← funext (hg x)] at changed
    exact ih changed

/-! ## Elements -/

/-- Two editors that are alike know the same of an element. -/
theorem metadata (n : NodeId) :
    (e'.metadata n).1 = (e.metadata n).1 ∧ Alike R (e.metadata n).2 (e'.metadata n).2 := by
  have known : e'.names.lookUp e'.page n = e.names.lookUp e.page n := by
    rw [h.names]
    exact h.read fun page => e.names.lookUp page n
  have stale : e'.names.isStale e'.page n = e.names.isStale e.page n := by
    rw [h.names]
    exact h.read fun page => e.names.isStale page n
  have names : e'.names.remember e'.page n = e.names.remember e.page n := by
    rw [h.names]
    exact h.read fun page => e.names.remember page n
  refine ⟨known, ?_⟩
  unfold Editor.metadata
  dsimp only
  rw [stale, names]
  split
  · rw [h.names]
    exact (h.log _ _ _).withNames _
  · exact h.withNames _

/-- Two editors that are alike describe an element in the same way. -/
theorem describe (n : NodeId) (detail : Bool) :
    (e'.describe n detail).1 = (e.describe n detail).1 ∧
      Alike R (e.describe n detail).2 (e'.describe n detail).2 := by
  obtain ⟨known, alike⟩ := h.metadata n
  refine ⟨?_, alike⟩
  show Descriptor.ofElement (e'.metadata n).2.page n (e'.metadata n).1 detail = _
  rw [known]
  exact alike.read fun page => Descriptor.ofElement page n (e.metadata n).1 detail

theorem tellAbout (n : NodeId) (detail : Bool) (notice : Descriptor → Notice) :
    Alike R (e.tellAbout n detail notice) (e'.tellAbout n detail notice) := by
  obtain ⟨description, alike⟩ := h.describe n detail
  unfold Editor.tellAbout
  dsimp only
  rw [description]
  exact alike.tell _

theorem identified?_eq (n : NodeId) : e'.identified? n = e.identified? n :=
  h.read fun page => ((Page.ancestors page n).takeWhile fun a => !Page.isRoot page a).find? fun a =>
    (Page.attribute? page a identityAttribute).isSome

theorem contains_eq (outer n : NodeId) : e'.contains outer n = e.contains outer n :=
  h.read fun page => (Page.ancestors page n).contains outer

theorem dropLostHover : Alike R e.dropLostHover e'.dropLostHover := by
  have connected : Page.isConnected e'.page = Page.isConnected e.page := h.read Page.isConnected
  unfold Editor.dropLostHover
  rw [h.state, connected]
  split
  · exact h
  · exact h.withState _

theorem announce : Alike R e.announce e'.announce := by
  have found : Page.identified e'.page = Page.identified e.page := h.read Page.identified
  have place : Page.location? e'.page = Page.location? e.page := h.read Page.location?
  have time : Page.timestamp e'.page = Page.timestamp e.page := h.read Page.timestamp
  unfold Editor.announce
  rw [h.state, found]
  split
  · exact h
  · split
    · exact h.log _ _ _
    · -- what is told is read from the page that has the new log entry already
      show Alike R _ (Editor.tell _
        (.ready ⟨(Page.identified e.page).length, Page.location? e'.page, Page.timestamp e'.page⟩))
      rw [place, time]
      exact ((h.withState _).log _ _ _).tell _

theorem contentChanged : Alike R e.contentChanged e'.contentChanged := by
  have found : Page.identified e'.page = Page.identified e.page := h.read Page.identified
  unfold Editor.contentChanged
  rw [found, h.names]
  exact ((h.withNames _).dropLostHover).announce

/-! ## Hovering and selecting -/

theorem clearHover (notify : Bool) : Alike R (e.clearHover notify) (e'.clearHover notify) := by
  unfold Editor.clearHover
  rw [h.state]
  split
  · exact h
  · have unmarked := fun n => ((h.withState { e.state with hover := none }).removeAttribute n
      Overlay.hoveredAttribute).removeAttribute n Overlay.fullWidthAttribute
    dsimp only
    split
    · exact (unmarked _).tell _
    · exact unmarked _

theorem markHovered (n : NodeId) : Alike R (e.markHovered n) (e'.markHovered n) := by
  have wide : e'.isFullWidth n = e.isFullWidth n := by
    unfold isFullWidth
    rw [h.config]
    exact h.read fun page =>
      (decide ((Page.viewportWidth page - (Page.rect page n).width).abs ≤ e.config.fullWidthTolerance) : Bool)
  have marked := h.setAttribute n Overlay.hoveredAttribute "true" "Failed to mark hovered element"
  unfold Editor.markHovered
  dsimp only
  rw [wide]
  split
  · exact marked.setAttribute _ _ _ _
  · exact marked.removeAttribute _ _

theorem hoverElement (n : NodeId) : Alike R (e.hoverElement n) (e'.hoverElement n) := by
  have marked := (h.clearHover false).markHovered n
  unfold Editor.hoverElement
  dsimp only
  rw [marked.state]
  exact (marked.withState _).tellAbout n false _

/-- Editors that are alike release their selections alike. -/
theorem releaseSelection : Alike R e.releaseSelection e'.releaseSelection := by
  unfold Editor.releaseSelection
  rw [h.state]
  split
  · exact h
  · have unmarked := fun n => (h.withState { e.state with selection := none }).removeAttribute n
      Overlay.selectedAttribute
    dsimp only
    split
    · exact (unmarked _).setAttribute _ _ _ _
    · exact (unmarked _).removeAttribute _ _

theorem select (n : NodeId) : Alike R (e.select n) (e'.select n) := by
  have released := h.releaseSelection
  have style : Page.attribute? e'.releaseSelection.page n "style" =
      Page.attribute? e.releaseSelection.page n "style" :=
    released.read fun page => Page.attribute? page n "style"
  have marked := released.setAttribute n Overlay.selectedAttribute "true"
    "Failed to mark selected element"
  unfold Editor.select
  dsimp only
  rw [style, marked.state]
  exact marked.withState _

/-! ## Editing a text -/

omit h in
theorem markEdited_eq (page : Headless) (n : NodeId) :
    Editor.markEdited page n = page.tryDocument fun d => d.markEdited n := by
  have tried : ∀ (page : Headless) (name : String), Page.setAttribute page n name "true" =
      page.tryDocument fun d => d.setAttribute n name "true" := fun _ _ => rfl
  unfold Editor.markEdited Document.markEdited
  simp only [tried, Headless.tryDocument]
  cases page.document.setAttribute n Overlay.editingAttribute "true" <;> rfl

theorem listenTo (n : NodeId) : Alike R (e.listenTo n) (e'.listenTo n) :=
  h.tryEach (g := fun l page => Page.listenTo page n l) (fun _ _ => rfl) "Failed to add edit listener"
    (fun l => [("event", l.name)]) ElementEvent.all

theorem unlistenTo (n : NodeId) : Alike R (e.unlistenTo n) (e'.unlistenTo n) :=
  h.onDocument fun d => ElementEvent.all.foldl (fun d l => d.unlistenTo n l) d

/-- Editors that are alike end their edits alike. -/
theorem endEdit (commit : Bool) : Alike R (e.endEdit commit) (e'.endEdit commit) := by
  cases hs : e.state.session with
  | none =>
    rw [endEdit_of_none hs, endEdit_of_none (h.state ▸ hs)]
    exact h
  | some s =>
    have text := congrArg (fun d : Document => d.textContent s.element) h.document_eq
    have settled : Alike R (e.settleText s commit) (e'.settleText s commit) := by
      have closed := h.withState { e.state with session := none }
      unfold settleText
      rw [h.state]
      cases commit with
      | true => exact closed
      | false => exact closed.onDocument fun d => d.setTextContent s.element s.openingText
    have unmarked := ((settled.removeAttribute s.element Overlay.editableAttribute).removeAttribute
      s.element Overlay.editingAttribute).unlistenTo s.element
    rw [endEdit_of_some hs, endEdit_of_some (h.state ▸ hs), text]
    exact (unmarked.log _ _ _).tell _

theorem focusOn (n : NodeId) : Alike R (e.focusOn n) (e'.focusOn n) :=
  h.tryDocument (fun d => d.focus n) _ _

theorem opened (n : NodeId) (text : String) (i : Option Identity) :
    Alike R (e.opened n text i) (e'.opened n text i) := by
  have heard := ((h.focusOn n).listenTo n).log .debug "Inline edit started"
    [("identity", Text.Quoted.quote? (i.map Identity.raw))]
  unfold Editor.opened
  dsimp only
  rw [heard.state]
  exact heard.withState _

theorem openEdit (n : NodeId) (text : String) (i : Option Identity) :
    Alike R (e.openEdit n text i) (e'.openEdit n text i) := by
  rw [openEdit_eq, openEdit_eq]
  exact ((h.opened n text i).tellAbout n false _).tellAbout n true _

/-- Editors that are alike begin an edit alike. -/
theorem beginEdit (n : NodeId) : Alike R (e.beginEdit n) (e'.beginEdit n) := by
  have text : Page.textContent e'.page n = Page.textContent e.page n :=
    h.read fun page => Page.textContent page n
  obtain ⟨known, alike⟩ := h.metadata n
  unfold Editor.beginEdit
  dsimp only
  rw [markEdited_eq, markEdited_eq, text, known]
  rcases alike.tryDocument_cases fun d => d.markEdited n with ⟨fault, h1, h2⟩ | ⟨d, h1, h2⟩
  · simp only [h1, h2]
    have logged := alike.log .warn "Failed to make element editable" [("error", fault.message)]
    exact (logged.removeAttribute n _).removeAttribute n _
  · simp only [h1, h2]
    exact (alike.withDocument d).openEdit n _ _

theorem startEdit (n : NodeId) : Alike R (e.startEdit n) (e'.startEdit n) := by
  unfold Editor.startEdit
  rw [h.state]
  split
  · exact h
  · exact (h.endEdit false).beginEdit n

/-! ## Modes -/

theorem listen : Alike R e.listen e'.listen := by
  have heard := h.tryEach (g := fun l page => Page.listen page l) (f := fun l d => .ok (d.listen l))
    (fun _ _ => rfl) "Failed to add listener" (fun l => [("event", l.name)]) DocumentEvent.all
  unfold Editor.listen
  rw [h.state]
  split
  · exact h
  · dsimp only
    rw [heard.state]
    exact heard.withState _

theorem unlisten : Alike R e.unlisten e'.unlisten := by
  have unheard := h.onDocument fun d => DocumentEvent.all.foldl (fun d l => d.unlisten l) d
  unfold Editor.unlisten
  rw [h.state]
  split
  · exact unheard.withState _
  · exact h

theorem enter (m : EditMode) : Alike R (e.enter m) (e'.enter m) := by
  unfold Editor.enter
  rw [h.state]
  exact (h.withState _).tell _

theorem enable : Alike R e.enable e'.enable := by
  have heard := (h.injectStylesheet Overlay.stylesId Overlay.styles).listen
  have pointing := heard.setBodyCursor
    (some (e.injectStylesheet Overlay.stylesId Overlay.styles).listen.config.cursor)
  have fitted := (pointing.setBodyAttribute Overlay.savingAttribute none).injectStylesheet
    Overlay.scrollId Overlay.scrollStyles
  unfold Editor.enable
  dsimp only
  rw [heard.config]
  exact fitted.enter .enabled

theorem enterSaving : Alike R e.enterSaving e'.enterSaving := by
  have held := (h.setBodyAttribute Overlay.savingAttribute (some "true")).endEdit false
  have still := held.releaseSelection.clearHover false
  unfold Editor.enterSaving
  dsimp only
  rw [still.state]
  exact still.withState _

theorem leaveSaving : Alike R e.leaveSaving e'.leaveSaving :=
  (h.setBodyAttribute Overlay.savingAttribute none).enter .enabled

theorem disable : Alike R e.disable e'.disable := by
  have hushed := ((h.endEdit false).unlisten.setBodyCursor none).setBodyAttribute
    Overlay.savingAttribute none
  have stripped := ((hushed.releaseSelection.clearHover false).removeStylesheet
    Overlay.stylesId).removeStylesheet Overlay.scrollId
  exact stripped.enter .disabled

/-- Editors that are alike change their modes alike, and answer alike. -/
theorem setMode (m : EditMode) : AlikeWith R (e.setMode m) (e'.setMode m) := by
  unfold Editor.setMode
  dsimp only
  rw [h.state]
  split
  · exact ⟨h.log _ _ _, rfl⟩
  · split
    · refine ⟨?_, rfl⟩
      dsimp only
      split
      · exact h.enable.log _ _ _
      · exact h.leaveSaving.log _ _ _
      · exact h.disable.log _ _ _
      · exact h.enterSaving.log _ _ _
    · exact ⟨h.log _ _ _, rfl⟩

/-! ## Commands of the host -/

theorem withSelected (kind : String) {act : HeadlessEditor → NodeId → HeadlessEditor × Outcome}
    (hact : ∀ n, AlikeWith R (act e n) (act e' n)) :
    AlikeWith R (e.withSelected kind act) (e'.withSelected kind act) := by
  unfold Editor.withSelected
  rw [h.state]
  split
  · exact hact _
  · exact ⟨h.log _ _ _, rfl⟩

theorem updateText (n : NodeId) (text : String) :
    Alike R (e.updateText n text) (e'.updateText n text) :=
  h.onDocument fun d => d.setTextContent n text

theorem updateStyles (n : NodeId) (styles : List (String × String)) :
    Alike R (e.updateStyles n styles) (e'.updateStyles n styles) := by
  have set : ∀ (s : String × String) (page : Headless), Page.setStyle page n s.1 s.2 =
      page.tryDocument fun d => d.setStyle n s.1 s.2 := fun _ _ => rfl
  exact h.tryEach set "Failed to apply style" (fun s => [("property", s.1)]) styles

theorem updateClasses (n : NodeId) (changes : ClassChanges) :
    Alike R (e.updateClasses n changes) (e'.updateClasses n changes) := by
  have removed := h.tryEach (g := fun c page => Page.removeClass page n c) (fun _ _ => rfl)
    "Failed to remove class" (fun c => [("class", c)]) changes.remove
  exact removed.tryEach (g := fun c page => Page.addClass page n c) (fun _ _ => rfl)
    "Failed to add class" (fun c => [("class", c)]) changes.add

theorem letGo (n : NodeId) : Alike R (e.letGo n) (e'.letGo n) := by
  have ended : Alike R (if e.state.editing? = some n then e.endEdit false else e)
      (if e'.state.editing? = some n then e'.endEdit false else e') := by
    rw [h.state]
    split
    · exact h.endEdit false
    · exact h
  have hovered : ∀ {e e' : HeadlessEditor}, Alike R e e' →
      Alike R (if e.state.hover.any (e.contains n) then e.clearHover false else e)
        (if e'.state.hover.any (e'.contains n) then e'.clearHover false else e') := by
    intro e e' h
    rw [h.state, funext (h.contains_eq n)]
    split
    · exact h.clearHover false
    · exact h
  exact hovered ended

theorem deleteElement (n : NodeId) : AlikeWith R (e.deleteElement n) (e'.deleteElement n) := by
  have free := h.letGo n
  unfold Editor.deleteElement
  dsimp only
  rw [show Page.remove? (e.letGo n).page n = ((e.letGo n).page.document.remove? n).map
      fun d => { (e.letGo n).page with document := d } from rfl,
    show Page.remove? (e'.letGo n).page n = ((e'.letGo n).page.document.remove? n).map
      fun d => { (e'.letGo n).page with document := d } from rfl, free.document_eq]
  cases (e.letGo n).page.document.remove? n with
  | none => exact ⟨free.log _ _ _, rfl⟩
  | some d =>
    have removed := ((free.withDocument d).log .debug "Deleted selected element"
      []).removeAttribute n Overlay.selectedAttribute
    refine ⟨?_, rfl⟩
    exact { removed with
      state := congrArg (fun s : EditorState NodeId => { s with selection := none }) removed.state
      names := congrArg (fun c : NameCache NodeId => c.forget n) removed.names }

theorem clearSelection : Alike R e.clearSelection e'.clearSelection :=
  ((h.endEdit false).releaseSelection).tell .selectionCleared

/-- Editors that are alike carry a command out alike, and answer alike. -/
theorem handleCommand (c : Command) : AlikeWith R (e.handleCommand c) (e'.handleCommand c) := by
  unfold Editor.handleCommand
  cases c with
  | setMode m =>
    obtain ⟨alike, changed⟩ := h.setMode m
    refine ⟨alike, ?_⟩
    dsimp only
    rw [changed]
  | updateText text => exact h.withSelected _ fun n => ⟨h.updateText n text, rfl⟩
  | updateStyles styles => exact h.withSelected _ fun n => ⟨h.updateStyles n styles, rfl⟩
  | updateClasses changes => exact h.withSelected _ fun n => ⟨h.updateClasses n changes, rfl⟩
  | deleteElement => exact h.withSelected _ h.deleteElement
  | clearSelection => exact ⟨h.clearSelection, rfl⟩

/-- Editors that are alike receive a message alike. -/
theorem receive (data : Json) (fromParent : Bool) :
    AlikeWith R (e.receive data fromParent) (e'.receive data fromParent) := by
  unfold Editor.receive
  rw [h.config]
  split
  · obtain ⟨alike, outcome⟩ := h.handleCommand _
    exact ⟨alike, congrArg some outcome⟩
  · split
    · exact ⟨h.log _ _ _, rfl⟩
    · exact ⟨h.log _ _ _, rfl⟩

/-! ## Events of the page -/

theorem chosen (n : NodeId) : Alike R (e.chosen n) (e'.chosen n) :=
  ((h.metadata n).2.select n).tellAbout n true _

theorem hasDirectText_eq (n : NodeId) :
    Editability.hasDirectText e'.page n = Editability.hasDirectText e.page n :=
  h.read fun page => Editability.hasDirectText page n

theorem clickElement (n : NodeId) : Alike R (e.clickElement n) (e'.clickElement n) := by
  obtain ⟨known, alike⟩ := h.metadata n
  have chosen := h.chosen n
  have direct := chosen.hasDirectText_eq n
  unfold Editor.chosen at chosen direct
  unfold Editor.clickElement
  dsimp only
  rw [known, direct]
  split
  · split
    · exact chosen.startEdit n
    · exact chosen
  · exact alike.log _ _ _

theorem click (target : NodeId) : AlikeWith R (e.click target) (e'.click target) := by
  have ended := h.endEdit true
  have inside : (fun n => e'.contains n target) = fun n => e.contains n target :=
    funext fun n => h.contains_eq n target
  unfold Editor.click
  dsimp only
  rw [h.state, inside, ended.identified?_eq target]
  split
  · exact ⟨h, rfl⟩
  · split
    · exact ⟨h, rfl⟩
    · split
      · exact ⟨ended.releaseSelection.tell _, rfl⟩
      · exact ⟨ended.clickElement _, rfl⟩

theorem submit_eq (target : NodeId) : e'.submit target = e.submit target := by
  unfold Editor.submit
  rw [h.state, h.identified?_eq]

theorem keyDown (key : String) : Alike R (e.keyDown key) (e'.keyDown key) := by
  unfold Editor.keyDown
  rw [h.state]
  split
  · exact (h.releaseSelection.clearHover true).tell _
  · exact h

theorem pointerOver (target : NodeId) : Alike R (e.pointerOver target) (e'.pointerOver target) := by
  unfold Editor.pointerOver
  rw [h.state, h.identified?_eq]
  split
  · exact h
  · split
    · exact h.clearHover true
    · split
      · exact h
      · rename_i n _ _
        obtain ⟨known, alike⟩ := h.metadata n
        dsimp only
        rw [known, alike.state]
        split
        · exact alike.clearHover true
        · exact alike.hoverElement n

theorem input (element : NodeId) : Alike R (e.input element) (e'.input element) := by
  have text : Page.textContent e'.page element = Page.textContent e.page element :=
    h.read fun page => Page.textContent page element
  unfold Editor.input
  rw [h.state, text]
  split
  · exact h
  · split
    · exact h.tell _
    · exact h

/-- Editors that are alike handle an event alike, and answer alike. -/
theorem handleEvent (ev : PageEvent NodeId) : AlikeWith R (e.handleEvent ev) (e'.handleEvent ev) := by
  cases ev with
  | click target => exact h.click target
  | submit target => exact ⟨h, h.submit_eq target⟩
  | keyDown key => exact ⟨h.keyDown key, rfl⟩
  | pointerOver target => exact ⟨h.pointerOver target, rfl⟩
  | scroll => exact ⟨h.clearHover true, rfl⟩
  | input element => exact ⟨h.input element, rfl⟩
  | blur element =>
    unfold Editor.handleEvent
    dsimp only
    rw [h.state]
    split
    · exact ⟨h.endEdit true, rfl⟩
    · exact ⟨h, rfl⟩
  | editKeyDown element key =>
    unfold Editor.handleEvent
    dsimp only
    rw [h.state]
    split
    · exact ⟨h.endEdit false, rfl⟩
    · exact ⟨h, rfl⟩

/-! ## Steps of a run -/

/-- Editors that are alike are alike after any operation. -/
theorem operate (o : Operation) : Alike R (e.operate o) (e'.operate o) := by
  cases o with
  | contentChanged => exact h.contentChanged
  | receive data fromParent => exact (h.receive data fromParent).alike
  | command c => exact (h.handleCommand c).alike
  | setMode m => exact (h.setMode m).alike
  | event ev => exact (h.handleEvent ev).alike
  | startEdit n => exact h.startEdit n
  | endEdit commit => exact h.endEdit commit

/-- Editors that are alike go on alike. -/
theorem step (x : Step) : Alike R (e.step x) (e'.step x) := by
  cases x with
  | page x => exact h.onDocument x.apply
  | clock time => exact { h with page := h.unread.clock h.page time }
  | channel failing => exact { h with page := h.unread.channel h.page failing }
  | operate o => exact h.operate o

end Alike

end Editor

end InPlace

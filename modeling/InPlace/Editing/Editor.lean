import InPlace.Editing.Config
import InPlace.Editing.Names
import InPlace.Editing.Overlay
import InPlace.Editing.Session

/-!
# The editor

The editor lives in a page and reacts to what the user does there and to what the host asks for. It lets
the user select elements and edit their texts, marks what is selected, hovered and edited, and tells the
host about it. Each reaction is a function from the editor, with its page, to the editor afterwards.

```text
           enable                 save
disabled ─────────▶ enabled ─────────────▶ saving
    ▲                  │   ◀───────────────   │
    │     disable      │        enable        │
    └──────────────────┴──────────────────────┘
```

A command to change to the mode it is in, or from `disabled` to `saving`, changes nothing.

Main statement: `setMode_of_not_canFollow` (the other changes of mode leave state and names alone).
-/

namespace InPlace

/-- A selected element. -/
structure Selection (N : Type) where
  element : N
  /-- Its `style` attribute when it was selected. -/
  unmarkedStyle : Option String
  deriving DecidableEq, Repr

/-- What the editor knows of its own doing. -/
structure EditorState (N : Type) where
  mode : EditMode := .disabled
  selection : Option (Selection N) := none
  hover : Option N := none
  session : Option (Session N) := none
  /-- Whether it listens to the document. -/
  listening : Bool := false
  /-- Whether the host knows that there is something to edit. -/
  ready : Bool := false
  deriving DecidableEq, Repr, Inhabited

namespace EditorState

variable {N : Type}

/-- The element that is selected. -/
def selected? (s : EditorState N) : Option N :=
  s.selection.map Selection.element

/-- The element whose text is edited. -/
def editing? (s : EditorState N) : Option N :=
  s.session.map Session.element

end EditorState

/-- What came of a command. -/
inductive Outcome where
  | applied
  /-- There was nothing to do. -/
  | ignored
  /-- There was nothing selected to do it to. -/
  | noSelection
  deriving DecidableEq, Repr, Inhabited

/-- Properties that a detailed descriptor tells the values of, in the order of their names. -/
def describedStyles : List String :=
  ["backgroundColor", "borderRadius", "boxShadow", "color", "fontSize", "fontStyle", "fontWeight",
    "lineHeight", "margin", "opacity", "padding", "textAlign", "textDecoration"]

/-- What the host is told about an element; with `detail` also its styles and its place. -/
def Descriptor.ofElement {P N : Type} [Page P N] (page : P) (n : N) (m : Metadata) (detail : Bool) :
    Descriptor where
  identity := m.identity
  displayName := m.displayName
  tagName := m.tagName
  textContent := Editability.extractText page n m.preformatted
  isTextEditable := m.editability.text
  canEditStyles := m.editability.styles
  styles :=
    if detail then some (describedStyles.map fun p => (p, (Page.computedStyle? page n p).getD ""))
    else none
  geometry := if detail then some (Page.rect page n) else none

/-- The editor in its page. -/
structure Editor (P N : Type) where
  page : P
  config : EditorConfig := {}
  state : EditorState N := {}
  names : NameCache N := {}

namespace Editor

variable {P N : Type} [Page P N] [DecidableEq N]

/-! ## The page, the log and the host -/

/-- Writes a line to the log of the page. -/
def log (e : Editor P N) (level : LogLevel) (message : String) (fields : List (String × String)) :
    Editor P N :=
  { e with page := Page.log e.page ⟨level, message, fields⟩ }

/-- Changes the page. Where that fails it is logged with the fields and the reason. -/
def tryPage (e : Editor P N) (change : P → Except PageError P) (failure : String)
    (fields : List (String × String)) : Editor P N :=
  match change e.page with
  | .ok page => { e with page }
  | .error fault => e.log .warn failure (fields ++ [("error", fault.message)])

/-- Tells the host. -/
def tell (e : Editor P N) (n : Notice) : Editor P N :=
  match Page.post e.page (.ofNotice n e.config.editorTag) with
  | .ok page => { e with page }
  | .error fault =>
    e.log .error "Failed to post message" [("kind", n.kind), ("error", fault.message)]

/-- Sets an attribute of an element, or logs a failure. -/
def setAttribute (e : Editor P N) (n : N) (name value failure : String) : Editor P N :=
  e.tryPage (fun page => Page.setAttribute page n name value) failure []

/-- Takes an attribute of an element away. -/
def removeAttribute (e : Editor P N) (n : N) (name : String) : Editor P N :=
  { e with page := Page.removeAttribute e.page n name }

/-- Sets or removes an attribute of the body. -/
def setBodyAttribute (e : Editor P N) (name : String) (value : Option String) : Editor P N :=
  { e with page := Page.setBodyAttribute e.page name value }

/-- Sets or removes the cursor in the style of the body. -/
def setBodyCursor (e : Editor P N) (cursor : Option String) : Editor P N :=
  { e with page := Page.setBodyCursor e.page cursor }

/-- Takes the style sheet with an id away. -/
def removeStylesheet (e : Editor P N) (id : String) : Editor P N :=
  { e with page := Page.removeStylesheet e.page id }

/-- Puts a style sheet into the page, in place of one with the same id. -/
def injectStylesheet (e : Editor P N) (id css : String) : Editor P N :=
  (e.removeStylesheet id).tryPage (fun page => Page.injectStylesheet page id css)
    "Failed to inject stylesheet" [("id", id)]

/-! ## Elements -/

/-- What is known about an element, and the editor that remembers it. -/
def metadata (e : Editor P N) (n : N) : Metadata × Editor P N :=
  let m := e.names.lookUp e.page n
  let noticed :=
    if e.names.isStale e.page n then
      e.log .trace "Stale element metadata" [("key", toString (e.names.number n))]
    else e
  (m, { noticed with names := e.names.remember e.page n })

/-- The description of an element, and the editor that remembers its names. -/
def describe (e : Editor P N) (n : N) (detail : Bool) : Descriptor × Editor P N :=
  let (m, e) := e.metadata n
  (.ofElement e.page n m detail, e)

/-- Tells the host what is known about an element. -/
def tellAbout (e : Editor P N) (n : N) (detail : Bool) (notice : Descriptor → Notice) :
    Editor P N :=
  let (d, e) := e.describe n detail
  e.tell (notice d)

/-- The nearest element with an identity, from `n` outwards and inside the body. -/
def identified? (e : Editor P N) (n : N) : Option N :=
  ((Page.ancestors e.page n).takeWhile fun a => !Page.isRoot e.page a).find? fun a =>
    (Page.attribute? e.page a identityAttribute).isSome

/-- Whether `n` is the element `outer` or inside of it. -/
def contains (e : Editor P N) (outer n : N) : Bool :=
  (Page.ancestors e.page n).contains outer

/-! ## Being ready -/

/-- Forgets the element under the pointer, if the document has lost it. -/
def dropLostHover (e : Editor P N) : Editor P N :=
  if e.state.hover.all (Page.isConnected e.page) then e
  else { e with state := { e.state with hover := none } }

/-- Tells the host, once, that there is something to edit. -/
def announce (e : Editor P N) : Editor P N :=
  if e.state.ready then e
  else
    match (Page.identified e.page).length with
    | 0 => e.log .trace "No identified elements yet" []
    | count =>
      -- said once, even if it does not reach the host
      let e := { e with state := { e.state with ready := true } }
      let e := e.log .debug "Agent ready" [("count", toString count)]
      e.tell (.ready ⟨count, Page.location? e.page, Page.timestamp e.page⟩)

/-- The elements of the page have changed. -/
def contentChanged (e : Editor P N) : Editor P N :=
  ({ e with names := e.names.prune (Page.identified e.page) }).dropLostHover.announce

/-! ## Hovering -/

/-- Takes the hover marks away. With `notify` the host is told. -/
def clearHover (e : Editor P N) (notify : Bool) : Editor P N :=
  match e.state.hover with
  | none => e
  | some n =>
    let e := { e with state := { e.state with hover := none } }
    let e := e.removeAttribute n Overlay.hoveredAttribute
    let e := e.removeAttribute n Overlay.fullWidthAttribute
    if notify then e.tell (.hoverChanged none) else e

/-- Whether an element is as wide as the viewport. -/
def isFullWidth (e : Editor P N) (n : N) : Bool :=
  (Page.viewportWidth e.page - (Page.rect e.page n).width).abs ≤ e.config.fullWidthTolerance

/-- Marks an element as the one under the pointer, and whether it is as wide as the page. -/
def markHovered (e : Editor P N) (n : N) : Editor P N :=
  let full := e.isFullWidth n
  let e := e.setAttribute n Overlay.hoveredAttribute "true" "Failed to mark hovered element"
  if full then
    e.setAttribute n Overlay.fullWidthAttribute "true" "Failed to mark full-width element"
  else e.removeAttribute n Overlay.fullWidthAttribute

/-! ## Selecting -/

/-- Takes the selection mark away and puts the element's style back. -/
def releaseSelection (e : Editor P N) : Editor P N :=
  match e.state.selection with
  | none => e
  | some s =>
    let e := { e with state := { e.state with selection := none } }
    let e := e.removeAttribute s.element Overlay.selectedAttribute
    -- styles that the host tried out on the element end with the selection
    match s.unmarkedStyle with
    | some style => e.setAttribute s.element "style" style "Failed to restore inline style"
    | none => e.removeAttribute s.element "style"

/-- Selects an element in place of the one selected before, and remembers its style. -/
def select (e : Editor P N) (n : N) : Editor P N :=
  let e := e.releaseSelection
  let style := Page.attribute? e.page n "style"
  let e := e.setAttribute n Overlay.selectedAttribute "true" "Failed to mark selected element"
  { e with state := { e.state with selection := some ⟨n, style⟩ } }

/-! ## Editing a text -/

/-- Listens to what happens at an element whose text is edited. -/
def listenTo (e : Editor P N) (n : N) : Editor P N :=
  ElementEvent.all.foldl (fun e l => e.tryPage (fun page => Page.listenTo page n l)
    "Failed to add edit listener" [("event", l.name)]) e

/-- Does not listen to what happens at an element any more. -/
def unlistenTo (e : Editor P N) (n : N) : Editor P N :=
  { e with page := ElementEvent.all.foldl (fun page l => Page.unlistenTo page n l) e.page }

/-- Ends the editing of a text. Without `commit` the text before is put back. -/
def endEdit (e : Editor P N) (commit : Bool) : Editor P N :=
  match e.state.session with
  | none => e
  | some s =>
    let e := { e with state := { e.state with session := none } }
    -- taken before the text is put back, to see whether the user changed it
    let current := Page.textContent e.page s.element
    let e :=
      if commit then e
      else { e with page := Page.setTextContent e.page s.element s.openingText }
    let e := e.removeAttribute s.element Overlay.editableAttribute
    let e := e.removeAttribute s.element Overlay.editingAttribute
    let e := e.unlistenTo s.element
    let outcome := s.outcome current commit
    let e := e.log .debug "Inline edit ended" [("changed", toString outcome.changed)]
    e.tell (.editEnded outcome)

/-- Marks an element as edited and makes it editable. -/
def markEdited (page : P) (n : N) : Except PageError P :=
  match Page.setAttribute page n Overlay.editingAttribute "true" with
  | .ok page => Page.setAttribute page n Overlay.editableAttribute "true"
  | .error fault => .error fault

/-- Opens the editing of an element that is marked as edited. -/
def openEdit (e : Editor P N) (n : N) (openingText : String) (identity : Option Identity) :
    Editor P N :=
  let e := e.tryPage (fun page => Page.focus page n) "Failed to focus edited element" []
  let e := e.listenTo n
  let e := e.log .debug "Inline edit started"
    [("identity", Text.Quoted.quote? (identity.map Identity.raw))]
  let e := { e with state := { e.state with session := some ⟨n, openingText, identity⟩ } }
  let e := e.tellAbout n false .editStarted
  e.tellAbout n true .openEditor

/-- Begins to edit the text of an element while no other one is edited. -/
def beginEdit (e : Editor P N) (n : N) : Editor P N :=
  let openingText := Page.textContent e.page n
  let (m, e) := e.metadata n
  match markEdited e.page n with
  | .ok page => { e with page }.openEdit n openingText m.identity
  | .error fault =>
    -- no mark of an editing stays
    let e := e.log .warn "Failed to make element editable" [("error", fault.message)]
    let e := e.removeAttribute n Overlay.editingAttribute
    e.removeAttribute n Overlay.editableAttribute

/-- Begins to edit the text of an element, in place of another one. -/
def startEdit (e : Editor P N) (n : N) : Editor P N :=
  if e.state.editing? = some n then e else (e.endEdit false).beginEdit n

/-! ## Modes -/

/-- Listens to the document, unless it does so already. -/
def listen (e : Editor P N) : Editor P N :=
  if e.state.listening then e
  else
    let e := DocumentEvent.all.foldl (fun e l => e.tryPage (fun page => Page.listen page l)
      "Failed to add listener" [("event", l.name)]) e
    { e with state := { e.state with listening := true } }

/-- Does not listen to the events of the document any more. -/
def unlisten (e : Editor P N) : Editor P N :=
  if e.state.listening then
    { e with
      page := DocumentEvent.all.foldl Page.unlisten e.page
      state := { e.state with listening := false } }
  else e

/-- Enters a mode and tells the host. -/
def enter (e : Editor P N) (m : EditMode) : Editor P N :=
  { e with state := { e.state with mode := m } }.tell (.modeChanged m)

/-- Changes to the mode in which elements can be edited. -/
def enable (e : Editor P N) : Editor P N :=
  let e := e.injectStylesheet Overlay.stylesId Overlay.styles
  let e := e.listen
  let e := e.setBodyCursor (some e.config.cursor)
  let e := e.setBodyAttribute Overlay.savingAttribute none
  let e := e.injectStylesheet Overlay.scrollId Overlay.scrollStyles
  e.enter .enabled

/-- Holds still while the host saves. The host is not told, since it asked for it. -/
def enterSaving (e : Editor P N) : Editor P N :=
  let e := e.setBodyAttribute Overlay.savingAttribute (some "true")
  let e := ((e.endEdit false).releaseSelection).clearHover false
  { e with state := { e.state with mode := .saving } }

/-- Goes back to editing when what was edited has been saved. -/
def leaveSaving (e : Editor P N) : Editor P N :=
  (e.setBodyAttribute Overlay.savingAttribute none).enter .enabled

/-- Changes to the mode in which the page is left alone. -/
def disable (e : Editor P N) : Editor P N :=
  -- the edited text is put back first, then no more events arrive
  let e := (e.endEdit false).unlisten
  let e := e.setBodyCursor none
  let e := e.setBodyAttribute Overlay.savingAttribute none
  let e := e.releaseSelection.clearHover false
  let e := e.removeStylesheet Overlay.stylesId
  let e := e.removeStylesheet Overlay.scrollId
  e.enter .disabled

/-- Whether one mode can follow another. -/
def canFollow : EditMode → EditMode → Bool
  | .disabled, .enabled | .enabled, .saving | .saving, .enabled => true
  | .enabled, .disabled | .saving, .disabled => true
  | _, _ => false

/-- Changes the mode; says whether it changed. -/
def setMode (e : Editor P N) (target : EditMode) : Editor P N × Bool :=
  let here := e.state.mode
  if here = target then (e.log .trace "Mode unchanged" [("mode", here.text)], false)
  else if canFollow here target then
    let e :=
      match here, target with
      | .disabled, _ => e.enable
      | .saving, .enabled => e.leaveSaving
      | _, .disabled => e.disable
      | _, _ => e.enterSaving
    (e.log .debug "Mode changed" [("from", here.text), ("to", target.text)], true)
  else
    (e.log .debug "Ignored mode transition" [("from", here.text), ("to", target.text)], false)

omit [DecidableEq N] in
/-- The changes of mode that cannot be made leave state and names alone. -/
theorem setMode_of_not_canFollow {e : Editor P N} {target : EditMode}
    (h : canFollow e.state.mode target = false) :
    (e.setMode target).2 = false ∧ (e.setMode target).1.state = e.state
      ∧ (e.setMode target).1.names = e.names := by
  unfold setMode
  by_cases hm : e.state.mode = target
  · simp [hm, log]
  · simp [hm, h, log]

/-! ## Commands of the host -/

/-- The selected element; without one there is a complaint. -/
def withSelected (e : Editor P N) (kind : String) (act : Editor P N → N → Editor P N × Outcome) :
    Editor P N × Outcome :=
  match e.state.selected? with
  | some n => act e n
  | none => (e.log .warn "No element selected" [("kind", kind)], .noSelection)

/-- Gives an element another text. -/
def updateText (e : Editor P N) (n : N) (text : String) : Editor P N :=
  { e with page := Page.setTextContent e.page n text }

/-- Gives an element other values of its styles, one after the other. -/
def updateStyles (e : Editor P N) (n : N) (styles : List (String × String)) : Editor P N :=
  styles.foldl (fun e s => e.tryPage (fun page => Page.setStyle page n s.1 s.2)
    "Failed to apply style" [("property", s.1)]) e

/-- Takes class names out of an element's list, then puts others in. -/
def updateClasses (e : Editor P N) (n : N) (changes : ClassChanges) : Editor P N :=
  let e := changes.remove.foldl (fun e c => e.tryPage (fun page => Page.removeClass page n c)
    "Failed to remove class" [("class", c)]) e
  changes.add.foldl (fun e c => e.tryPage (fun page => Page.addClass page n c)
    "Failed to add class" [("class", c)]) e

/-- Gives up what the editor holds inside of an element that is to be deleted. -/
def letGo (e : Editor P N) (n : N) : Editor P N :=
  -- the text is put back while the element is still in the page
  let e := if e.state.editing? = some n then e.endEdit false else e
  if e.state.hover.any (e.contains n) then e.clearHover false else e

/-- Takes the selected element out of the page, and everything the editor holds inside of it. -/
def deleteElement (e : Editor P N) (n : N) : Editor P N × Outcome :=
  let e := e.letGo n
  match Page.remove? e.page n with
  | none => (e.log .warn "Selected element has no parent" [], .ignored)
  | some page =>
    let e := { e with page }.log .debug "Deleted selected element" []
    let e := e.removeAttribute n Overlay.selectedAttribute
    ({ e with
      names := e.names.forget n
      state := { e.state with selection := none } }, .applied)

/-- Gives up the selection and the editing of a text. -/
def clearSelection (e : Editor P N) : Editor P N :=
  ((e.endEdit false).releaseSelection).tell .selectionCleared

/-- Does what the host asks for. -/
def handleCommand (e : Editor P N) (c : Command) : Editor P N × Outcome :=
  match c with
  | .setMode m =>
    let (e, changed) := e.setMode m
    (e, if changed then .applied else .ignored)
  | .updateText text => e.withSelected c.kind fun e n => (e.updateText n text, .applied)
  | .updateStyles styles => e.withSelected c.kind fun e n => (e.updateStyles n styles, .applied)
  | .updateClasses changes => e.withSelected c.kind fun e n => (e.updateClasses n changes, .applied)
  | .deleteElement => e.withSelected c.kind deleteElement
  | .clearSelection => (e.clearSelection, .applied)

/-- A message has arrived. One that is not the host's is dropped without a word. -/
def receive (e : Editor P N) (data : Json) (fromParent : Bool) : Editor P N × Option Outcome :=
  match (TrustPolicy.mk e.config.hostTag).accept data fromParent with
  | .ok c =>
    let (e, outcome) := e.handleCommand c
    (e, some outcome)
  | .error r =>
    if r.isSilent then (e.log .trace "Dropped inbound message" [("reason", r.message)], none)
    else (e.log .warn "Ignoring inbound message" [("error", r.message)], none)

/-! ## Events of the page -/

/-- Selects an element with an identity and begins to edit its text, as far as that may be edited. -/
def clickElement (e : Editor P N) (n : N) : Editor P N :=
  -- asked before the earlier selection ends, whose style this element may inherit
  let (m, e) := e.metadata n
  if m.editability.isEditable then
    let e := e.select n
    let e := e.tellAbout n true fun d => .selectionChanged (some d)
    if m.editability.text && Editability.hasDirectText e.page n then e.startEdit n else e
  else e.log .trace "Clicked element is not editable" []

/-- A click in the edited text belongs to the text; elsewhere it ends the editing and selects. -/
def click (e : Editor P N) (target : N) : Editor P N × Response :=
  if !e.state.mode.isActive then (e, .pass)
  else if e.state.editing?.any fun n => e.contains n target then (e, .pass)
  else
    -- a click elsewhere keeps what was written
    let e := e.endEdit true
    match e.identified? target with
    | none => (e.releaseSelection.tell (.selectionChanged none), .block)
    | some n => (e.clickElement n, .block)

/-- No form is sent while the editor is active. -/
def submit (e : Editor P N) (target : N) : Response :=
  if !e.state.mode.isActive then .pass
  else if (e.identified? target).isSome then .prevent
  else .block

/-- Escape gives up the selection, unless a text is being edited. -/
def keyDown (e : Editor P N) (key : String) : Editor P N :=
  if e.state.mode.isActive && key == "Escape" && e.state.session.isNone then
    (e.releaseSelection.clearHover true).tell .selectionCleared
  else e

/-- Hovers an element. -/
def hoverElement (e : Editor P N) (n : N) : Editor P N :=
  let e := e.clearHover false
  let e := e.markHovered n
  let e := { e with state := { e.state with hover := some n } }
  e.tellAbout n false fun d => .hoverChanged (some d)

/-- The pointer has moved over an element. What may be edited and is not selected is hovered. -/
def pointerOver (e : Editor P N) (target : N) : Editor P N :=
  if e.state.mode ≠ .enabled then e
  else
    match e.identified? target with
    | none => e.clearHover true
    | some n =>
      -- it is marked, and the host knows
      if e.state.hover = some n then e
      else
        let (m, e) := e.metadata n
        if !m.editability.isEditable || e.state.selected? = some n then e.clearHover true
        else e.hoverElement n

/-- The edited text has changed. -/
def input (e : Editor P N) (element : N) : Editor P N :=
  match e.state.session with
  | none => e
  | some s =>
    if s.element = element then
      e.tell (.textUpdated ⟨Page.textContent e.page element, s.identity⟩)
    else e

/-- Reacts to what happened in the page. -/
def handleEvent (e : Editor P N) : PageEvent N → Editor P N × Response
  | .click target => e.click target
  | .submit target => (e, e.submit target)
  | .keyDown key => (e.keyDown key, .pass)
  | .pointerOver target => (e.pointerOver target, .pass)
  | .scroll => (e.clearHover true, .pass)
  | .input element => (e.input element, .pass)
  | .blur element =>
    if e.state.editing? = some element then (e.endEdit true, .pass) else (e, .pass)
  | .editKeyDown element key =>
    if key = "Escape" ∧ e.state.editing? = some element then (e.endEdit false, .prevent)
    else (e, .pass)

end Editor

end InPlace

import InPlace.Browser.Basic

/-!
# The page in a browser

What an editor sees of the browser and does in it. An editor is wired to the page by two callbacks, one for
the events of the document and one for those of the element that it edits, and sends its messages to the
window around the page; or it is loose: then it can register no listener and its messages are kept.

Moving the focus raises events while the editor is at work. How they are dispatched is a parameter here.
-/

namespace InPlace.Browser

/-- How an event is dispatched. -/
abbrev Dispatcher := Browser → Event → Browser × Response

/-- How an editor is connected with the page. -/
inductive Wiring where
  | wired (editor : Nat) (origin : String)
  | loose
  deriving DecidableEq, Repr, Inhabited

namespace Wiring

/-- The listener of an editor for events of the whole document. -/
def documentListener? (w : Wiring) (l : DocumentEvent) : Option Listener :=
  match w with
  | wired id _ => some ⟨.node Document.top, l.name, true, .documentEvents id⟩
  | loose => none

/-- The listener of an editor for events of the element that it edits. -/
def elementListener? (w : Wiring) (n : NodeId) (l : ElementEvent) : Option Listener :=
  match w with
  | wired id _ => some ⟨.node n, l.name, false, .elementEvents id⟩
  | loose => none

end Wiring

/-- Registers a listener, if there is one. -/
def tryListen (b : Browser) : Option Listener → Except PageError Browser
  | some l => .ok (b.listen l)
  | none => .error (.failed "no event handler installed")

/-- Takes a listener away, if there is one. -/
def unlisten? (b : Browser) : Option Listener → Browser
  | some l => b.unlisten l
  | none => b

/-- Sends a message, or keeps it. -/
def postAs (b : Browser) (w : Wiring) (e : Envelope) : Except PostError Browser :=
  match w with
  | .wired _ origin => b.post origin e
  | .loose => .ok { b with kept := b.kept ++ [e] }

/-- Moves the focus to an element, unless that is detached or has it. The element that had the focus is
told first. -/
def moveFocus (b : Browser) (dispatch : Dispatcher) (n : NodeId) : Browser :=
  if !b.document.isConnected n || b.document.focused == some n then b
  else
    -- the old element hears of it while it still has the focus
    let left :=
      match b.document.focused with
      | some old => (dispatch b { type := "blur", target := .node old }).1
      | none => b
    let entered := left.onDocument fun d => { d with focused := some n }
    (dispatch entered { type := "focus", target := .node n }).1

/-- Moves the focus to an element of the page's language. -/
def tryFocus (b : Browser) (dispatch : Dispatcher) (n : NodeId) : Except PageError Browser :=
  if b.document.isNative n then .ok (b.moveFocus dispatch n)
  else .error (.failed "element is not focusable")

/-- The page as an editor finds it. -/
@[reducible]
def page (w : Wiring) (dispatch : Dispatcher) : Page Browser NodeId where
  isConnected b := b.document.isConnected
  ancestors b := b.document.ancestors
  isRoot b := b.document.isRoot
  tagName b := b.document.tagName
  identified b := b.document.identified
  attribute? b := b.document.attribute?
  setAttribute b n name value := .ok (b.onDocument fun d => d.setAttribute n name (some value))
  removeAttribute b n name := b.onDocument fun d => d.setAttribute n name none
  textContent b := b.document.textContent
  setTextContent b n s := b.onDocument fun d => d.setTextContent n s
  renderedText b := b.document.renderedText
  childTexts b := b.document.childTexts
  computedStyle? b n property := some (b.document.computedStyle n (Styles.propertyName property))
  setStyle b n property value := b.tryDocument fun d => d.setStyle n property value
  addClass b n name := b.tryDocument fun d => d.addClass n name
  removeClass b n name := b.tryDocument fun d => d.removeClass n name
  rect b := b.document.rect
  viewportWidth b := b.window.innerWidth.getD 0
  remove? b n := (b.document.remove? n).map fun d => { b with document := d }
  focus b n := b.tryFocus dispatch n
  injectStylesheet b id css := b.tryDocument fun d => d.injectStylesheet id css
  removeStylesheet b id := b.onDocument fun d => d.removeStylesheet id
  setBodyCursor b cursor := b.onDocument fun d => d.setBodyCursor cursor
  setBodyAttribute b name value := b.onDocument fun d => d.setBodyAttribute name value
  location? b := b.window.address
  listen b l := b.tryListen (w.documentListener? l)
  unlisten b l := b.unlisten? (w.documentListener? l)
  listenTo b n l := b.tryListen (w.elementListener? n l)
  unlistenTo b n l := b.unlisten? (w.elementListener? n l)
  post b e := b.postAs w e
  log b entry := b.log entry
  timestamp b := b.clock

/-- Something that an editor does in the page. -/
abbrev Act (α : Type) := Page Browser NodeId → Editor Browser NodeId → Editor Browser NodeId × α

namespace Act

/-- Reacts to an event. -/
def handle (event : PageEvent NodeId) : Act Response :=
  fun p e => @Editor.handleEvent _ _ p _ e event

/-- Reacts to a message. -/
def receive (content : Json) (fromParent : Bool) : Act (Option Outcome) :=
  fun p e => @Editor.receive _ _ p _ e content fromParent

/-- Takes notice of a change of content. -/
def contentChanged : Act Unit :=
  fun p e => (@Editor.contentChanged _ _ p _ e, ())

/-- Changes the mode. -/
def setMode (m : EditMode) : Act Bool :=
  fun p e => @Editor.setMode _ _ p e m

end Act

/-- Lets an editor do something in the page. -/
def run {α : Type} (b : Browser) (dispatch : Dispatcher) (w : Wiring) (r : Resident) (act : Act α) :
    Browser × Resident × α :=
  let e : Editor Browser NodeId := ⟨b, r.config, r.state, r.names⟩
  let (e, a) := act (page w dispatch) e
  (e.page, { r with state := e.state, names := e.names }, a)

/-- Lets an editor that is idle do something. It is at work meanwhile. -/
def enter {α : Type} (b : Browser) (dispatch : Dispatcher) (id : Nat) (r : Resident) (act : Act α) :
    Browser × α :=
  let (b, r, a) := (b.putSeat id .working).run dispatch (.wired id r.origin) r act
  (b.putSeat id (.idle r), a)

/-- Lets an editor do something, if it is idle. -/
def enterIfIdle (b : Browser) (dispatch : Dispatcher) (id : Nat) (act : Act Unit) : Browser :=
  match b.seat? id with
  | some (.idle r) => (b.enter dispatch id r act).1
  | _ => b

end InPlace.Browser

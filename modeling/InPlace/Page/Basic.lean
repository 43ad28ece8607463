import InPlace.Messages.Envelope

/-!
# Pages

What the editor needs of the page it runs in: a tree of elements with attributes, texts and styles,
listeners, style sheets, the window around the page and a place for log entries. Each change gives the page
after it, or the reason why there is none.

The ancestors of a node are given as a list, so that every walk over them ends.
-/

namespace InPlace

/-- Events of the whole document that the editor listens for while it is active. -/
inductive DocumentEvent where
  | click
  | submit
  | keyDown
  | pointerOver
  | scroll
  deriving DecidableEq, Repr, Inhabited

namespace DocumentEvent

/-- The events of a document, in the order in which the editor listens to them. -/
def all : List DocumentEvent :=
  [click, submit, keyDown, pointerOver, scroll]

/-- The name of an event of a document. -/
def name : DocumentEvent → String
  | click => "click"
  | submit => "submit"
  | keyDown => "keydown"
  | pointerOver => "pointerover"
  | scroll => "scroll"

/-- Every event is listed. -/
theorem mem_all (d : DocumentEvent) : d ∈ all := by
  cases d <;> decide

end DocumentEvent

/-- Events of an element whose text is edited. -/
inductive ElementEvent where
  | input
  | blur
  | keyDown
  deriving DecidableEq, Repr, Inhabited

namespace ElementEvent

/-- The events of an element, in the order in which the editor listens to them. -/
def all : List ElementEvent :=
  [input, blur, keyDown]

/-- The name of an event of an element. -/
def name : ElementEvent → String
  | input => "input"
  | blur => "blur"
  | keyDown => "keydown"

/-- Every event is listed. -/
theorem mem_all (l : ElementEvent) : l ∈ all := by
  cases l <;> decide

end ElementEvent

/-- What happened in the page. -/
inductive PageEvent (N : Type) where
  | click (target : N)
  | submit (target : N)
  | keyDown (key : String)
  | pointerOver (target : N)
  | scroll
  /-- The content of the edited element changed. -/
  | input (element : N)
  /-- The edited element lost the focus. -/
  | blur (element : N)
  /-- A key was pressed inside the edited element. -/
  | editKeyDown (element : N) (key : String)
  deriving DecidableEq, Repr

/-- What becomes of an event after the editor has seen it. -/
structure Response where
  preventDefault : Bool
  stopPropagation : Bool
  deriving DecidableEq, Repr, Inhabited

namespace Response

/-- The event goes on as if the editor were not there. -/
def pass : Response :=
  ⟨false, false⟩

/-- The browser does nothing of its own. -/
def prevent : Response :=
  ⟨true, false⟩

/-- Neither the browser nor the page sees the event. -/
def block : Response :=
  ⟨true, true⟩

end Response

/-- Why a page could not be changed. -/
inductive PageError where
  | detached
  | failed (reason : String)
  deriving DecidableEq, Repr, Inhabited

/-- What a page says that refuses a change. -/
def PageError.message : PageError → String
  | detached => "Node is no longer in the document"
  | failed reason => "DOM operation failed: " ++ reason

/-- Why a message could not be sent. -/
inductive PostError where
  | noParent
  | failed (reason : String)
  deriving DecidableEq, Repr, Inhabited

/-- What is said of a message that could not be sent. -/
def PostError.message : PostError → String
  | noParent => "No parent context to post to"
  | failed reason => "postMessage failed: " ++ reason

/-- Levels of log entries, the gravest first. -/
inductive LogLevel where
  | error
  | warn
  | info
  | debug
  | trace
  deriving DecidableEq, Repr, Inhabited

namespace LogLevel

/-- The levels of a log, the gravest first. -/
def all : List LogLevel :=
  [error, warn, info, debug, trace]

/-- The name of a level. -/
def name : LogLevel → String
  | error => "error"
  | warn => "warn"
  | info => "info"
  | debug => "debug"
  | trace => "trace"

/-- The level with a name in small letters. -/
def ofName? (s : String) : Option LogLevel :=
  all.find? fun l => l.name == s

theorem ofName?_name (l : LogLevel) : ofName? l.name = some l := by
  cases l <;> decide

/-- The larger, the less grave. -/
def rank : LogLevel → Nat
  | error => 0
  | warn => 1
  | info => 2
  | debug => 3
  | trace => 4

end LogLevel

/-- A log entry. -/
structure LogEntry where
  level : LogLevel
  message : String
  fields : List (String × String) := []
  deriving DecidableEq, Repr, Inhabited

/-- A page of type `P` with nodes of type `N`. -/
class Page (P : Type) (N : outParam Type) where
  isConnected : P → N → Bool
  /-- The node and its ancestors that are elements, from the inside to the outside. -/
  ancestors : P → N → List N
  /-- Whether the node is the body or outside of it. -/
  isRoot : P → N → Bool
  /-- The name of an element, in small letters. -/
  tagName : P → N → String
  /-- The elements with an identity, in document order. -/
  identified : P → List N
  attribute? : P → N → String → Option String
  setAttribute : P → N → String → String → Except PageError P
  removeAttribute : P → N → String → P
  /-- All text inside a node. -/
  textContent : P → N → String
  setTextContent : P → N → String → P
  /-- The text inside a node as it is shown. -/
  renderedText : P → N → String
  /-- The texts directly inside a node. -/
  childTexts : P → N → List String
  /-- The value of a style property, named as in a script. -/
  computedStyle? : P → N → String → Option String
  setStyle : P → N → String → String → Except PageError P
  addClass : P → N → String → Except PageError P
  removeClass : P → N → String → Except PageError P
  rect : P → N → Rect
  viewportWidth : P → Float
  /-- The page without a node; none where it stands alone. -/
  remove? : P → N → Option P
  focus : P → N → Except PageError P
  injectStylesheet : P → String → String → Except PageError P
  removeStylesheet : P → String → P
  setBodyCursor : P → Option String → P
  setBodyAttribute : P → String → Option String → P
  location? : P → Option String
  listen : P → DocumentEvent → Except PageError P
  unlisten : P → DocumentEvent → P
  listenTo : P → N → ElementEvent → Except PageError P
  unlistenTo : P → N → ElementEvent → P
  /-- Sends a message to the window around the page. -/
  post : P → Envelope → Except PostError P
  log : P → LogEntry → P
  /-- The time of day, to the millisecond. -/
  timestamp : P → String

end InPlace

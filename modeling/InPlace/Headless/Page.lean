import InPlace.Editing.Editor
import InPlace.Headless.Document

/-!
# Pages in memory

A document in memory with what is around it: the messages sent to the host, the log, and the time of day.
With it the editor runs without a browser.
-/

namespace InPlace

/-- Keeps the messages that are sent; one that fails sends none. -/
structure Outbox where
  sent : List Envelope := []
  failing : Bool := false
  deriving Inhabited

/-- A document and what is around it. -/
structure Headless where
  document : Headless.Document := .empty
  outbox : Outbox := {}
  journal : List LogEntry := []
  clock : String := ""
  deriving Inhabited

namespace Headless

/-- Changes the document of a page. -/
def onDocument (h : Headless) (f : Document → Document) : Headless :=
  { h with document := f h.document }

/-- Changes the document of a page, if that does not fail. -/
def tryDocument (h : Headless) (f : Document → Except PageError Document) :
    Except PageError Headless :=
  (f h.document).map fun d => { h with document := d }

/-- Sends a message to the host, if the channel does not fail. -/
def post (h : Headless) (e : Envelope) : Except PostError Headless :=
  if h.outbox.failing then .error .noParent
  else .ok { h with outbox := { h.outbox with sent := h.outbox.sent ++ [e] } }

instance : Page Headless NodeId where
  isConnected h := h.document.isConnected
  ancestors h := h.document.nodes.ancestors
  isRoot _ n := n == Document.body
  tagName h := h.document.tagName
  identified h := h.document.identified
  attribute? h := h.document.attribute?
  setAttribute h n name value := h.tryDocument fun d => d.setAttribute n name value
  removeAttribute h n name := h.onDocument fun d => d.removeAttribute n name
  textContent h := h.document.textContent
  setTextContent h n s := h.onDocument fun d => d.setTextContent n s
  renderedText h := h.document.renderedText
  childTexts h := h.document.childTexts
  computedStyle? h := h.document.computedStyle?
  setStyle h n property value := h.tryDocument fun d => d.setStyle n property value
  addClass h n name := h.tryDocument fun d => d.addClass n name
  removeClass h n name := h.tryDocument fun d => d.removeClass n name
  rect h := h.document.rect
  viewportWidth h := h.document.viewportWidth
  remove? h n := (h.document.remove? n).map fun d => { h with document := d }
  focus h n := h.tryDocument fun d => d.focus n
  injectStylesheet h id css := .ok (h.onDocument fun d => d.injectStylesheet id css)
  removeStylesheet h id := h.onDocument fun d => d.removeStylesheet id
  setBodyCursor h cursor := h.onDocument fun d => { d with bodyCursor := cursor }
  setBodyAttribute h name value := h.onDocument fun d => d.setBodyAttribute name value
  location? h := h.document.location
  listen h l := .ok (h.onDocument fun d => d.listen l)
  unlisten h l := h.onDocument fun d => d.unlisten l
  listenTo h n l := h.tryDocument fun d => d.listenTo n l
  unlistenTo h n l := h.onDocument fun d => d.unlistenTo n l
  post h e := h.post e
  log h entry := { h with journal := h.journal ++ [entry] }
  timestamp h := h.clock

end Headless

/-- The editor in a page in memory. -/
abbrev HeadlessEditor := Editor Headless NodeId

end InPlace

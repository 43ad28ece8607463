import InPlace.Browser.Page

/-!
# Dispatching events

An event makes its stops one after the other, and at each of them the listeners are called that are
registered for it. A callback that has been called and is not done is not called again; so events raise
further events only to a depth that is bounded by the number of callbacks.

Main statement: `call_of_mem_running` (a callback that is not done is not called again).
-/

namespace InPlace.Browser

/-- What two responses to an event come to. -/
def both (r s : Response) : Response :=
  ⟨r.preventDefault || s.preventDefault, r.stopPropagation || s.stopPropagation⟩

/-- The page's editor is told that content has changed. -/
def notify (b : Browser) (dispatch : Dispatcher) : Browser :=
  match b.handle with
  | some id => b.enterIfIdle dispatch id .contentChanged
  | none => b

/-- What comes of a reaction of the page's own. -/
def outcomeOf (b : Browser) (dispatch : Dispatcher) : Reaction → Browser × Reacted
  | .fire e =>
    let (b, response) := dispatch b e
    (b, .fired response)
  | .notify => (b.notify dispatch, .notified)
  | .probe => (b, .probed b.status?)

/-- The page reacts on its own. -/
def react (b : Browser) (dispatch : Dispatcher) (r : Reaction) : Browser :=
  let (b, reacted) := b.outcomeOf dispatch r
  { b with reacted := b.reacted ++ [reacted] }

/-- An editor reacts to an event that means something to it. -/
def reactAs (b : Browser) (dispatch : Dispatcher) (id : Nat) (e : Event)
    (meaning : Option (PageEvent NodeId)) : Browser × Response :=
  match meaning, b.seat? id with
  | some event, some (.idle r) => b.enter dispatch id r (.handle event)
  | some _, some .working =>
    -- the editor raised the event itself
    (b.log ⟨.debug, "Dropped re-entrant event", [("event", e.type)]⟩, .pass)
  | _, _ => (b, .pass)

/-- An editor receives a message. -/
def receiveAs (b : Browser) (dispatch : Dispatcher) (id : Nat) (e : Event) : Browser :=
  match e.data, b.seat? id with
  | .message (some content) sender, some (.idle r) =>
    (b.enter dispatch id r (.receive content.transferred (b.window.isParent sender))).1
  | .message (some _) _, some .working => b.log ⟨.debug, "Dropped re-entrant message", []⟩
  | _, _ => b

/-- What a callback does with an event at a place. -/
def perform (b : Browser) (dispatch : Dispatcher) (c : Callback) (place : Target) (e : Event) :
    Browser × Response :=
  match c with
  | .hook k =>
    match b.reactions[k]? with
    | some r => (b.react dispatch r, .pass)
    | none => (b, .pass)
  | .documentEvents id => b.reactAs dispatch id e (e.onDocument? b.document)
  | .elementEvents id =>
    match place with
    | .node n => b.reactAs dispatch id e (e.onElement? n)
    | .window => (b, .pass)
  | .messages id => (b.receiveAs dispatch id e, .pass)
  | .contentLoaded id => (b.enterIfIdle dispatch id .contentChanged, .pass)

/-- Calls a callback, unless it has been called and is not done. -/
def call (b : Browser) (dispatch : Dispatcher) (c : Callback) (place : Target) (e : Event) :
    Browser × Response :=
  if c ∈ b.running then (b, .pass)
  else
    let (b, r) := { b with running := c :: b.running }.perform dispatch c place e
    ({ b with running := b.running.erase c }, r)

/-- A callback that is not done is not called again. -/
theorem call_of_mem_running {b : Browser} {dispatch : Dispatcher} {c : Callback} {place : Target}
    {e : Event} (h : c ∈ b.running) : b.call dispatch c place e = (b, .pass) := by
  simp [call, h]

/-- Calls a listener that is still registered. -/
def callListener (dispatch : Dispatcher) (e : Event) (now : Browser × Response) (l : Listener) :
    Browser × Response :=
  -- an earlier listener may have taken this one away
  if l ∈ now.1.listeners then
    let (b, r) := now.1.call dispatch l.callback l.place e
    (b, both now.2 r)
  else now

/-- Makes a stop, unless the event was kept from going on before. -/
def makeStop (dispatch : Dispatcher) (e : Event) (now : Browser × Response) (s : Stop) :
    Browser × Response :=
  if now.2.stopPropagation then now
  else (now.1.listenersAt e.type s).foldl (callListener dispatch e) now

/-- Dispatches an event, and what it raises down to a depth. -/
def dispatch : Nat → Dispatcher
  | 0, b, _ => (b, .pass)
  | k + 1, b, e => (itinerary b.document e).foldl (makeStop (dispatch k) e) (b, .pass)

/-- The number of callbacks that there can be, with an event outside of them all. -/
def depth (b : Browser) : Nat :=
  b.reactions.length + 4 * b.editors.length + 1

/-- Dispatches an event. -/
def fire (b : Browser) (e : Event) : Browser × Response :=
  dispatch b.depth b e

end InPlace.Browser

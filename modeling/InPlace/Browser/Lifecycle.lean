import InPlace.Browser.Dispatch

/-!
# Starting and ending editors

An editor is started in a page, waits until the document has been read, and announces itself. A page has one
editor that it can ask; a later one takes its place, and the earlier one then ends. An editor that ends
gives up all that it has registered and leaves the page as a page that is not edited.

Main statement: `seat?_endEditor` (an editor that has ended does nothing any more).
-/

namespace InPlace.Browser

/-- Why no editor can be started. -/
inductive StartFault where
  | noWindow
  | noDocument
  deriving DecidableEq, Repr, Inhabited

/-- What the program says when it cannot start. -/
def StartFault.message : StartFault → String
  | noWindow => "no window"
  | noDocument => (PageError.failed "window has no document").message

/-- Whether there is a page for an editor to work in. -/
def startFault? (b : Browser) : Option StartFault :=
  if !b.window.isThere then some .noWindow
  else if !b.window.hasDocument then some .noDocument
  else none

/-- The listener of an editor for messages. -/
def messageListener (id : Nat) : Listener :=
  ⟨.window, "message", false, .messages id⟩

/-- The listener of an editor for the end of reading the document. -/
def loadListener (id : Nat) : Listener :=
  ⟨.node Document.top, "DOMContentLoaded", false, .contentLoaded id⟩

/-- Ends an editor. It gives up its listeners, where they can be reached, and leaves its mode. -/
def endEditor (b : Browser) (id : Nat) : Browser :=
  let b := { b with observers := b.observers.filter (· != id) }.unlisten (messageListener id)
  -- without a document there is no way to its listeners
  let b := if b.window.hasDocument then b.unlisten (loadListener id) else b
  -- the other listeners go with the mode
  let left :=
    match b.seat? id with
    | some (.idle r) => (b.enter fire id r (.setMode .disabled)).1
    | _ => b
  { left with editors := left.editors.filter fun e => e.1 != id }

/-- An editor that has ended does nothing any more. -/
theorem seat?_endEditor (b : Browser) (id : Nat) : (b.endEditor id).seat? id = none := by
  simp [endEditor, seat?]

/-- Adds an editor that has not begun to work, with its listener for messages. -/
def addEditor (b : Browser) (r : Resident) : Browser :=
  { b with
    editors := b.editors ++ [(b.started, Seat.idle r)]
    started := b.started + 1
    observers := b.observers ++ [b.started] }.listen (messageListener b.started)

/-- Lets an editor announce itself, now or when the document has been read. -/
def begin (b : Browser) (id : Nat) : Browser :=
  if b.window.readiness = "loading" then b.listen (loadListener id)
  else b.enterIfIdle fire id .contentChanged

/-- Ends the editor that the page can ask, if there is one. -/
def endHandle (b : Browser) : Browser :=
  match b.handle with
  | some id => { b with handle := none }.endEditor id
  | none => b

/-- Starts an editor in place of an earlier one. -/
def start (b : Browser) (o : StartOptions) : Except StartFault Browser :=
  match b.startFault? with
  | some fault => .error fault
  | none =>
    let begun := (b.addEditor { config := o.editor, origin := o.targetOrigin.getD "*" }).begin b.started
    -- the earlier editor ends only now, when the new one works
    .ok { begun.endHandle with handle := some b.started }

/-- Tells the editors that watch the document that children were added or removed in it, if they were. -/
def tellObservers (b : Browser) : Browser :=
  if b.document.changed then
    -- what the editors change from now on counts anew
    let b := b.onDocument fun d => { d with changed := false }
    b.observers.foldl (fun b id => b.enterIfIdle fire id .contentChanged) b
  else b

/-! ## An editor that listens to nothing -/

/-- Starts an editor that listens to nothing and keeps its messages. -/
def startLoose (b : Browser) : Except StartFault Browser :=
  match b.startFault? with
  | some fault => .error fault
  | none => .ok { b with loose := some {}, kept := [] }

/-- Lets the loose editor do something; none where there is none. -/
def enterLoose? {α : Type} (b : Browser) (act : Act α) : Option (Browser × α) :=
  b.loose.map fun r =>
    let (b, r, a) := b.run fire .loose r act
    ({ b with loose := some r }, a)

end InPlace.Browser

import InPlace.Browser.Document
import InPlace.Browser.Window

/-!
# Events in a browser

An event is aimed at a node or at the window. It passes the listeners that capture it, from the window down
to its target, and then the others from the target up, as far as it goes up.

Main statement: `itinerary_window` (an event aimed at the window stays there).
-/

namespace InPlace.Browser

/-- What an event is aimed at. -/
inductive Target where
  | window
  | node (n : NodeId)
  deriving DecidableEq, Repr, Inhabited

/-- What an event brings with it. -/
inductive EventData where
  | plain
  | key (key : String)
  /-- A message with its sender. What is no value of JSON has no content. -/
  | message (content : Option Json) (sender : Option WindowRef)
  deriving Inhabited

/-- An event. -/
structure Event where
  type : String
  target : Target
  data : EventData := .plain
  deriving Inhabited

namespace Event

/-- Types of events that are not passed on above their target. -/
def fixedTypes : List String :=
  ["focus", "blur", "scroll", "message"]

/-- Whether an event goes on from its target to what is above. -/
def bubbles (e : Event) : Bool :=
  !fixedTypes.contains e.type

/-- The key that was pressed, for an event of the keyboard. -/
def key? (e : Event) : Option String :=
  match e.data with
  | .key k => some k
  | _ => none

/-- The element that an event is aimed at: a text stands for the element around it. -/
def targetElement? (e : Event) (d : Document) : Option NodeId :=
  match e.target with
  | .window => none
  | .node n => if (d.element? n).isSome then some n else d.parentElement? n

/-- What the event means for the editor where it listens to the document. -/
def onDocument? (e : Event) (d : Document) : Option (PageEvent NodeId) :=
  if e.type = "click" then (e.targetElement? d).map .click
  else if e.type = "submit" then (e.targetElement? d).map .submit
  else if e.type = "keydown" then e.key?.map .keyDown
  else if e.type = "pointerover" then (e.targetElement? d).map .pointerOver
  else if e.type = "scroll" then some .scroll
  else none

/-- What the event means for the editor where it listens to the element `n`. -/
def onElement? (e : Event) (n : NodeId) : Option (PageEvent NodeId) :=
  if e.type = "input" then some (.input n)
  else if e.type = "blur" then some (.blur n)
  else if e.type = "keydown" then e.key?.map (.editKeyDown n)
  else none

end Event

/-- A place that an event passes, and whether it is captured there. -/
structure Stop where
  place : Target
  capture : Bool
  deriving DecidableEq, Repr

/-- The target, its ancestors and the window, as far as they belong together. -/
def path (d : Document) : Target → List Target
  | .window => [.window]
  | .node n =>
    (d.nodes.ancestors n).map .node ++ (if d.isConnected n then [.window] else [])

/-- The stops of an event in their order. -/
def itinerary (d : Document) (e : Event) : List Stop :=
  let places := path d e.target
  places.reverse.map (fun p => ⟨p, true⟩)
    ++ (if e.bubbles then places else places.take 1).map fun p => ⟨p, false⟩

/-- An event aimed at the window stays there. -/
theorem itinerary_window (d : Document) (e : Event) (h : e.target = .window) :
    itinerary d e = [⟨.window, true⟩, ⟨.window, false⟩] := by
  cases hb : e.bubbles <;> simp [itinerary, path, h, hb]

/-- What listens to events: something of the page's own, or an editor in one of its roles. -/
inductive Callback where
  | hook (number : Nat)
  /-- Reacts to events of the whole document. -/
  | documentEvents (editor : Nat)
  /-- Reacts to events of the element that is edited. -/
  | elementEvents (editor : Nat)
  /-- Reacts to messages of other windows. -/
  | messages (editor : Nat)
  /-- Reacts to the end of reading the document. -/
  | contentLoaded (editor : Nat)
  deriving DecidableEq, Repr, Inhabited

/-- A callback that is registered for a type of events at a place. -/
structure Listener where
  place : Target
  type : String
  capture : Bool
  callback : Callback
  deriving DecidableEq, Repr, Inhabited

/-- What the page does on its own when an event arrives. -/
inductive Reaction where
  | fire (e : Event)
  /-- Tells the editor that content has changed. -/
  | notify
  /-- Asks what the editor is doing. -/
  | probe
  deriving Inhabited

/-- What an editor says about itself. One that is at work does not say its mode. -/
structure Status where
  mode : Option EditMode
  ready : Bool
  deriving DecidableEq, Repr, Inhabited

/-- What came of a reaction. -/
inductive Reacted where
  | fired (r : Response)
  | notified
  | probed (status : Option Status)
  deriving DecidableEq, Repr, Inhabited

end InPlace.Browser

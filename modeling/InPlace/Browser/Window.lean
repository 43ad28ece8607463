import InPlace.Json.Transfer
import InPlace.Page.Basic

/-!
# Windows

The window that a page is shown in, the window around it, and what one sends to the other.

Main statement: `isParent_iff` (only the window around the page is taken for it).
-/

namespace InPlace.Browser

/-- A window, as the page sees it. -/
inductive WindowRef where
  /-- The window that has the page's window in a frame. -/
  | frame
  /-- The page's own window. -/
  | self
  | other
  deriving DecidableEq, Repr, Inhabited

/-- What a page finds when it asks for the window around its own. -/
inductive Surroundings where
  | frame
  | nobody
  /-- The page's window is around itself. -/
  | self
  /-- The question fails. -/
  | forbidden
  deriving DecidableEq, Repr, Inhabited

/-- The window that a page is shown in. -/
structure Window where
  isThere : Bool := true
  hasDocument : Bool := true
  /-- How far the document has been read. -/
  readiness : String := "complete"
  /-- The address of the page, if it may be asked for. -/
  address : Option String := some "http://localhost:3000/"
  innerWidth : Option Float := some 1280
  surroundings : Surroundings := .frame
  /-- Why no message can be sent. -/
  sendingFault : Option String := none
  deriving Repr, Inhabited

namespace Window

/-- The window around the page. -/
def parent? (w : Window) : Option WindowRef :=
  match w.surroundings with
  | .frame => some .frame
  | .self => some .self
  | .nobody | .forbidden => none

/-- Whether a message was sent by the window around the page. -/
def isParent (w : Window) (sender : Option WindowRef) : Bool :=
  sender.isSome && w.parent? == sender

/-- Only the window around the page is taken for it. -/
theorem isParent_iff {w : Window} {sender : Option WindowRef} :
    w.isParent sender = true ↔ ∃ r, sender = some r ∧ w.parent? = some r := by
  cases sender <;> simp [isParent]

end Window

/-- A message that was sent. -/
structure Posted where
  receiver : WindowRef
  /-- The windows that may read it. -/
  origin : String
  message : Json
  deriving Inhabited

end InPlace.Browser

namespace InPlace

/-- The channel of the console that shows an entry. -/
def LogLevel.channel (l : LogLevel) : String :=
  if l = trace then debug.name else l.name

/-- The line that the console shows for an entry. -/
def LogEntry.line (entry : LogEntry) : String :=
  "[Visual Editor] " ++ entry.message
    ++ String.join (entry.fields.map fun f => " " ++ f.1 ++ "=" ++ f.2)

end InPlace

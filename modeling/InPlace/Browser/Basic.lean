import InPlace.Browser.Event
import InPlace.Editing.Editor

/-!
# Browsers

A browser shows a page and keeps the editors that were started in it. An editor is kept apart from the page
it works on: while it reacts to something the page is its own, and what else happens in the page meanwhile
finds it at work.

Main statements: `seat?_putSeat` (a change of one editor's seat leaves the others alone) and
`mem_listeners_listen` (what is registered afterwards).
-/

namespace InPlace

namespace Browser

/-- An editor between two reactions. -/
structure Resident where
  config : EditorConfig := {}
  /-- Windows that may read its messages. -/
  origin : String := "*"
  state : EditorState NodeId := {}
  names : NameCache NodeId := {}
  deriving Inhabited

/-- What an editor is doing. -/
inductive Seat where
  | idle (r : Resident)
  | working
  deriving Inhabited

end Browser

/-- A browser with a page. -/
structure Browser where
  document : Browser.Document := .new true true
  window : Browser.Window := {}
  listeners : List Browser.Listener := []
  /-- The editors that are told when children were added or removed. -/
  observers : List Nat := []
  /-- The editors that were started and not ended, by their numbers. -/
  editors : List (Nat × Browser.Seat) := []
  /-- How many editors were started. -/
  started : Nat := 0
  /-- The editor that the page can ask. -/
  handle : Option Nat := none
  /-- An editor that listens to nothing and keeps its messages. -/
  loose : Option Browser.Resident := none
  /-- The messages that it has kept. -/
  kept : List Envelope := []
  /-- The callbacks that have been called and are not done. -/
  running : List Browser.Callback := []
  /-- What the page does on its own, by the numbers of its callbacks. -/
  reactions : List Browser.Reaction := []
  reacted : List Browser.Reacted := []
  /-- The least grave entries that the console shows. -/
  consoleLevel : LogLevel := .warn
  console : List LogEntry := []
  posted : List Browser.Posted := []
  clock : String := ""
  deriving Inhabited

namespace Browser

/-- Changes the document of a browser. -/
def onDocument (b : Browser) (f : Document → Document) : Browser :=
  { b with document := f b.document }

/-- Changes the document, where that is possible. -/
def tryDocument (b : Browser) (f : Document → Except PageError Document) : Except PageError Browser :=
  (f b.document).map fun d => { b with document := d }

/-- Shows an entry on the console, if it is grave enough. -/
def log (b : Browser) (entry : LogEntry) : Browser :=
  if entry.level.rank ≤ b.consoleLevel.rank then { b with console := b.console ++ [entry] } else b

/-- Sends a message to the window around the page. -/
def post (b : Browser) (origin : String) (e : Envelope) : Except PostError Browser :=
  match b.window.parent?, b.window.sendingFault with
  | none, _ => .error .noParent
  | some _, some reason => .error (.failed reason)
  | some w, none => .ok { b with posted := b.posted ++ [⟨w, origin, e.toJson.transferred⟩] }

/-! ## Listeners -/

/-- Registers a listener. One that is registered already is not registered twice. -/
def listen (b : Browser) (l : Listener) : Browser :=
  if l ∈ b.listeners then b else { b with listeners := b.listeners ++ [l] }

/-- Takes a listener away, if it was there. -/
def unlisten (b : Browser) (l : Listener) : Browser :=
  { b with listeners := b.listeners.filter (· != l) }

/-- A listener that is added is there, with the others. -/
theorem mem_listeners_listen {b : Browser} {l m : Listener} :
    m ∈ (b.listen l).listeners ↔ m = l ∨ m ∈ b.listeners := by
  unfold listen
  split
  · rename_i h
    exact ⟨.inr, fun hm => hm.elim (fun e => e ▸ h) id⟩
  · simp [or_comm]

/-- A listener that is taken away is gone, and the others stay. -/
theorem mem_listeners_unlisten {b : Browser} {l m : Listener} :
    m ∈ (b.unlisten l).listeners ↔ m ≠ l ∧ m ∈ b.listeners := by
  simp [unlisten, and_comm]

/-- The listeners at a stop for a type of events. -/
def listenersAt (b : Browser) (type : String) (s : Stop) : List Listener :=
  b.listeners.filter fun l => l.place == s.place && l.capture == s.capture && l.type == type

/-! ## Editors -/

/-- What an editor is doing; none where it has ended. -/
def seat? (b : Browser) (id : Nat) : Option Seat :=
  (b.editors.find? fun s => s.1 == id).map Prod.snd

/-- Gives an editor another seat. -/
def putSeat (b : Browser) (id : Nat) (s : Seat) : Browser :=
  { b with editors := b.editors.map fun e => if e.1 == id then (id, s) else e }

/-- A change of one editor's seat leaves the others alone. -/
theorem seat?_putSeat (b : Browser) (id other : Nat) (s : Seat) :
    (b.putSeat id s).seat? other =
      if id = other then (b.seat? other).map fun _ => s else b.seat? other := by
  unfold seat? putSeat
  induction b.editors with
  | nil => simp
  | cons e es ih =>
      obtain ⟨k, t⟩ := e
      by_cases hk : k = id
      · subst hk
        by_cases ho : k = other
        · subst ho
          simp
        · simp [ho] at ih ⊢
          exact ih
      · by_cases ho : k = other
        · subst ho
          simp [hk, Ne.symm hk]
        · simp [hk, ho] at ih ⊢
          exact ih

/-- What an editor says about itself. -/
def Seat.status : Seat → Status
  | idle r => ⟨some r.state.mode, r.state.ready⟩
  | working => ⟨none, false⟩

/-- What the editor says about itself that the page can ask; none where there is none. -/
def status? (b : Browser) : Option Status :=
  (b.handle.bind b.seat?).map Seat.status

end Browser

end InPlace

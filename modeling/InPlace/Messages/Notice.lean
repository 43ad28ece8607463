import InPlace.Messages.Descriptor
import InPlace.Messages.Mode

/-!
# Notices

What the editor in the page tells its host: that it is ready, which mode it is in, what is selected and
hovered, and how the editing of a text goes.
-/

namespace InPlace

/-- The editor has found something to edit. -/
structure Readiness where
  /-- Elements with an identity in the page. -/
  count : Nat
  url : Option String
  timestamp : String
  deriving DecidableEq, Repr, Inhabited

namespace Readiness

/-- What the editor says when it is ready, as a value. -/
def toJson (r : Readiness) : Json :=
  .ofFields ([("count", .ofNat r.count)] ++ Json.present "url" Json.str r.url
    ++ [("timestamp", .str r.timestamp)])

/-- What the editor says when it is ready, from a value. -/
def ofJson? (j : Json) : Option Readiness := do
  let fields ← Json.record? ["count", "url", "timestamp"] 3 j
  let count ← Json.required? (Json.natBelow? UInt64.size) "count" fields
  let url ← Json.nullable? Json.str? "url" fields
  let timestamp ← Json.required? Json.str? "timestamp" fields
  return { count, url, timestamp }

end Readiness

/-- How far the editing of a text has come. -/
inductive EditState where
  | started
  | saved
  | cancelled
  deriving DecidableEq, Repr, Inhabited

namespace EditState

/-- How an edit goes on, by its name. -/
def text : EditState → String
  | started => "started"
  | saved => "saved"
  | cancelled => "cancelled"

/-- How an edit goes on, from its name. -/
def ofText? : String → Option EditState
  | "started" => some started
  | "saved" => some saved
  | "cancelled" => some cancelled
  | _ => none

/-- How an edit goes on, as a value. -/
def toJson (s : EditState) : Json :=
  .str s.text

/-- How an edit goes on, from a value. -/
def ofJson? (j : Json) : Option EditState :=
  match Json.choice? ["started", "saved", "cancelled"] j with
  | .ok name => ofText? name
  | .error _ => none

end EditState

/-- How the editing of a text ended. -/
structure EditOutcome where
  state : EditState
  text : String
  openingText : String
  metadata : Option Identity
  changed : Bool
  deriving DecidableEq, Repr, Inhabited

namespace EditOutcome

/-- How an edit ended, as a value. -/
def toJson (o : EditOutcome) : Json :=
  .ofFields [("state", o.state.toJson), ("text", .str o.text), ("originalText", .str o.openingText),
    ("metadata", .ofOption Identity.toJson o.metadata), ("changed", .bool o.changed)]

/-- How an edit ended, from a value. -/
def ofJson? (j : Json) : Option EditOutcome := do
  let fields ← Json.record? ["state", "text", "originalText", "metadata", "changed"] 5 j
  let state ← Json.required? EditState.ofJson? "state" fields
  let text ← Json.required? Json.str? "text" fields
  let openingText ← Json.required? Json.str? "originalText" fields
  let metadata ← Json.nullable? Identity.ofJson? "metadata" fields
  let changed ← Json.required? Json.bool? "changed" fields
  return { state, text, openingText, metadata, changed }

end EditOutcome

/-- The text of an element while it is edited. -/
structure TextUpdate where
  text : String
  metadata : Option Identity
  deriving DecidableEq, Repr, Inhabited

namespace TextUpdate

/-- A text that is being edited, as a value. -/
def toJson (u : TextUpdate) : Json :=
  .ofFields [("text", .str u.text), ("metadata", .ofOption Identity.toJson u.metadata)]

/-- A text that is being edited, from a value. -/
def ofJson? (j : Json) : Option TextUpdate := do
  let fields ← Json.record? ["text", "metadata"] 2 j
  let text ← Json.required? Json.str? "text" fields
  let metadata ← Json.nullable? Identity.ofJson? "metadata" fields
  return { text, metadata }

end TextUpdate

/-- What the editor tells its host. -/
inductive Notice where
  | ready (r : Readiness)
  | modeChanged (m : EditMode)
  | selectionChanged (d : Option Descriptor)
  | hoverChanged (d : Option Descriptor)
  | editStarted (d : Descriptor)
  | editEnded (o : EditOutcome)
  | textUpdated (u : TextUpdate)
  | openEditor (d : Descriptor)
  | selectionCleared
  deriving Repr, Inhabited

namespace Notice

/-- The kind under which a notice is sent. The begin and the end of an edit share theirs. -/
def kind : Notice → String
  | ready _ => "READY"
  | modeChanged _ => "EDIT_MODE_STATE"
  | selectionChanged _ => "ELEMENT_CLICKED"
  | hoverChanged _ => "ELEMENT_HOVERED"
  | editStarted _ | editEnded _ => "INLINE_EDIT_STATE"
  | textUpdated _ => "ELEMENT_TEXT_UPDATED"
  | openEditor _ => "OPEN_EDITOR_POPOVER"
  | selectionCleared => "SELECTION_CLEARED"

/-- What is sent with a notice. That of a begun edit is the descriptor with the state among its fields. -/
def payload : Notice → Json
  | ready r => r.toJson
  | modeChanged m => .ofFields [("state", .str m.text)]
  | selectionChanged d | hoverChanged d => .ofOption Descriptor.toJson d
  | editStarted d => .ofFields (d.fields ++ [("state", EditState.started.toJson)])
  | editEnded o => o.toJson
  | textUpdated u => u.toJson
  | openEditor d => d.toJson
  | selectionCleared => .obj []

end Notice

end InPlace

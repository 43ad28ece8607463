import InPlace.Editing.Session
import InPlace.Messages.Envelope
import InPlace.Proofs.Json.Fields

/-!
# Topics of messages

What a host makes of a message of the editor. It tells the messages apart by their kind, those on the editing
of a text also by the state in their payload, and those on the mode by the mode.

Main statements: `topic?_ofNotice` (the message of a notice has the topic of the notice), and
`identity_editStarted`, `metadata_editEnded` and `metadata_textUpdated` (whose text a message is about).
-/

namespace InPlace

/-- What a message is about. -/
inductive Topic where
  | ready
  | mode (m : EditMode)
  | selection
  | hover
  | editStarted
  | editEnded
  | text
  | editor
  | cleared
  deriving DecidableEq

namespace Notice

/-- What a notice is about. The end of an edit would be read as a begin if its state were one. -/
def topic : Notice → Topic
  | ready _ => .ready
  | modeChanged m => .mode m
  | selectionChanged _ => .selection
  | hoverChanged _ => .hover
  | editStarted _ => .editStarted
  | editEnded o => if o.state = .started then .editStarted else .editEnded
  | textUpdated _ => .text
  | openEditor _ => .editor
  | selectionCleared => .cleared

/-- The report of an edit that ended is read as such. -/
theorem topic_editEnded_outcome {N : Type} (s : Session N) (text : String) (commit : Bool) :
    (editEnded (s.outcome text commit)).topic = .editEnded := by
  unfold topic Session.outcome
  by_cases h : (commit && text != s.openingText) = true
  · simp [h]
  · simp [h]

end Notice

namespace Envelope

/-- What a message on the editing of a text is about. -/
def editTopic? (m : Envelope) : Option Topic :=
  match m.payload.get? "state" with
  | some (.str "started") => some .editStarted
  | some (.str "saved") => some .editEnded
  | some (.str "cancelled") => some .editEnded
  | _ => none

/-- The mode that a message tells. -/
def modeTopic? (m : Envelope) : Option Topic :=
  match m.payload.get? "state" with
  | some (.str s) => (EditMode.ofText? s).map Topic.mode
  | _ => none

/-- What a message is about, as far as its kind is known. -/
def topic? (m : Envelope) : Option Topic :=
  match m.kind with
  | "READY" => some .ready
  | "EDIT_MODE_STATE" => m.modeTopic?
  | "ELEMENT_CLICKED" => some .selection
  | "ELEMENT_HOVERED" => some .hover
  | "INLINE_EDIT_STATE" => m.editTopic?
  | "ELEMENT_TEXT_UPDATED" => some .text
  | "OPEN_EDITOR_POPOVER" => some .editor
  | "SELECTION_CLEARED" => some .cleared
  | _ => none

/-- The message of a notice has the topic of the notice. -/
theorem topic?_ofNotice (n : Notice) (tag : String) :
    (ofNotice n tag).topic? = some n.topic := by
  cases n with
  | ready r => rfl
  -- three kinds of messages have a state in them that tells their topics apart
  | modeChanged m =>
    have hstate : (Notice.modeChanged m).payload.get? "state" = some (.str m.text) := by
      rw [Notice.payload, Json.get?_ofFields]
      rfl
    show modeTopic? (ofNotice (.modeChanged m) tag) = some (.mode m)
    unfold modeTopic?
    rw [show (ofNotice (.modeChanged m) tag).payload.get? "state" = some (.str m.text) from hstate]
    simp [EditMode.ofText?_text]
  | selectionChanged d => rfl
  | hoverChanged d => rfl
  | editStarted d =>
    have hstate : (Notice.editStarted d).payload.get? "state" = some (.str "started") := by
      rw [Notice.payload, Json.get?_ofFields, List.reverse_append]
      rfl
    show editTopic? (ofNotice (.editStarted d) tag) = some .editStarted
    unfold editTopic?
    rw [show (ofNotice (.editStarted d) tag).payload.get? "state" = _ from hstate]
    simp
  | editEnded o =>
    have hstate : (Notice.editEnded o).payload.get? "state" = some (.str o.state.text) := by
      rw [Notice.payload, EditOutcome.toJson, Json.get?_ofFields]
      rfl
    show editTopic? (ofNotice (.editEnded o) tag) = _
    unfold editTopic?
    rw [show (ofNotice (.editEnded o) tag).payload.get? "state" = _ from hstate]
    cases h : o.state <;> simp [Notice.topic, h, EditState.text]
  | textUpdated u => rfl
  | openEditor d => rfl
  | selectionCleared => rfl

/-- The identity of the element that a begun edit is about. -/
def identity? (m : Envelope) : Option Json :=
  m.payload.get? "identity"

/-- The identity that a text or a report belongs to. -/
def metadata? (m : Envelope) : Option Json :=
  m.payload.get? "metadata"

/-- An identity as messages carry it. -/
def identityJson (i : Option Identity) : Json :=
  .ofOption Identity.toJson i

theorem identity_editStarted (d : Descriptor) (tag : String) :
    (ofNotice (.editStarted d) tag).identity? = some (identityJson d.identity) := by
  show (Notice.editStarted d).payload.get? "identity" = _
  rw [Notice.payload, Json.get?_ofFields, Descriptor.fields]
  cases d.styles with
  | none => cases d.geometry <;> rfl
  | some styles => cases d.geometry <;> rfl

theorem metadata_editEnded (o : EditOutcome) (tag : String) :
    (ofNotice (.editEnded o) tag).metadata? = some (identityJson o.metadata) := by
  show (Notice.editEnded o).payload.get? "metadata" = _
  rw [Notice.payload, EditOutcome.toJson, Json.get?_ofFields]
  rfl

theorem metadata_textUpdated (u : TextUpdate) (tag : String) :
    (ofNotice (.textUpdated u) tag).metadata? = some (identityJson u.metadata) := by
  show (Notice.textUpdated u).payload.get? "metadata" = _
  rw [Notice.payload, TextUpdate.toJson, Json.get?_ofFields]
  rfl

end Envelope

end InPlace

import InPlace.Messages.Notice
import InPlace.Messages.Command
import InPlace.Json.Record

/-!
# Envelopes

Messages travel between the host and the page as objects with a type, a payload and the tag of the side
that sent them. Anything may arrive there, so an envelope is accepted only in this form, and a command only
with the host's tag and from the window around the page.

Main statement: `ofJson?_eq_none_of_not_isObject` (only objects are envelopes).
-/

namespace InPlace

/-- Tag of the host's messages. -/
def hostTag : String := "softgen-editor"

/-- Tag of the editor's messages. -/
def editorTag : String := "softgen-iframe"

/-- A message on its way. -/
structure Envelope where
  kind : String
  payload : Json
  /-- Tag of the sender. -/
  source : Option String
  deriving Inhabited

namespace Envelope

/-- The envelope of a notice. -/
def ofNotice (n : Notice) (source : String) : Envelope :=
  ⟨n.kind, n.payload, some source⟩

/-- The fields in the order in which they are written. -/
def fields (e : Envelope) : List (String × Json) :=
  [("type", .str e.kind), ("payload", e.payload)] ++ Json.present "source" Json.str e.source

/-- An envelope as a value. -/
def toJson (e : Envelope) : Json :=
  .ofFields e.fields

/-- The envelope as it is written. -/
def text (e : Envelope) : String :=
  (Json.obj e.fields).compact

/-- The envelope in a value. The tag may be called `source` or `sourceTag`, but not both. -/
def ofJson? : Json → Option Envelope
  | .obj fields => do
    let kind ← Json.required? Json.str? "type" fields
    let payload := (Json.lookup "payload" fields).getD .null
    let source ←
      match Json.lookup "source" fields, Json.lookup "sourceTag" fields with
      -- two tags, even equal ones, are one too many
      | some _, some _ => none
      | none, none => some none
      | some .null, none | none, some .null => some none
      | some (.str s), none | none, some (.str s) => some (some s)
      | _, _ => none
    return ⟨kind, payload, source⟩
  | _ => none

/-- Only objects are envelopes. -/
theorem ofJson?_eq_none_of_not_isObject {j : Json} (h : j.isObject = false) : ofJson? j = none := by
  cases j <;> first | rfl | simp [Json.isObject] at h

end Envelope

/-- Why a message is not acted on. -/
inductive Rejection where
  | notAnEnvelope
  | foreignSource (expected : String) (found : Option String)
  /-- The message does not come from the window around the page. -/
  | untrustedSender
  | badCommand (kind : String) (fault : CommandFault)

namespace Rejection

/-- Whether the message is dropped without a word, because it may be meant for someone else. -/
def isSilent : Rejection → Bool
  | badCommand _ _ => false
  | _ => true

/-- Why a message was rejected, as it is logged. -/
def message : Rejection → String
  | notAnEnvelope => "Message is not an envelope object"
  | foreignSource expected found =>
    "Message source tag " ++ Text.Quoted.quote? found ++ " does not match "
      ++ Text.Quoted.quote expected
  | untrustedSender => "Message was not sent by the parent context"
  | badCommand kind fault => fault.message kind

end Rejection

/-- Decides which messages the editor acts on. -/
structure TrustPolicy where
  hostTag : String := InPlace.hostTag
  deriving DecidableEq, Repr, Inhabited

/-- The command in a message, if its tag is the host's and its sender the window around the page. -/
def TrustPolicy.accept (policy : TrustPolicy) (data : Json) (fromParent : Bool) :
    Except Rejection Command :=
  match Envelope.ofJson? data with
  | none => .error .notAnEnvelope
  | some e =>
    -- a message with another tag is for someone else, whoever sent it
    if e.source ≠ some policy.hostTag then .error (.foreignSource policy.hostTag e.source)
    else if !fromParent then .error .untrustedSender
    else
      match Command.decode e.kind e.payload with
      | .ok c => .ok c
      | .error fault => .error (.badCommand e.kind fault)

end InPlace

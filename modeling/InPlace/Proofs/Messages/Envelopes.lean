import InPlace.Messages.Envelope
import InPlace.Proofs.Json.Fields

/-!
# The form of envelopes

Exactly the objects with a text as their type are envelopes that have no more than one tag, which is a text or null.
What is made of one depends on its type, payload and tag alone, and an envelope that was written is read back.

Main statements: `ofJson?_eq_some_iff`, `ofJson?_congr` and `ofJson?_toJson`.
-/

namespace InPlace

namespace Envelope

/-- The tag of a message, under either of its names. -/
def tag? (data : Json) : Option Json :=
  (data.get? "source").or (data.get? "sourceTag")

/-- The form of an envelope. -/
structure HasForm (data : Json) : Prop where
  object : data.isObject = true
  typed : ∃ kind, data.get? "type" = some (.str kind)
  single : data.get? "source" = none ∨ data.get? "sourceTag" = none
  tagged : ∀ tag, tag? data = some tag → tag = .null ∨ ∃ s, tag = .str s

/-- What is read under the two names of a tag. -/
def readTag? : Option Json → Option Json → Option (Option String)
  | some _, some _ => none
  | none, none => some none
  | some tag, none | none, some tag =>
    match tag with
    | .null => some none
    | .str s => some (some s)
    | _ => none

/-- A tag is read from either of its names, but not from both. -/
theorem readTag?_eq_some_iff {a b : Option Json} {source : Option String} :
    readTag? a b = some source ↔ (a = none ∨ b = none) ∧
      (∀ tag, a.or b = some tag → tag = .null ∨ ∃ s, tag = .str s) ∧ source = (a.or b).bind Json.str? := by
  cases a with
  | none =>
    cases b with
    | none => simp [readTag?, eq_comm]
    | some tag => cases tag <;> simp [readTag?, Json.str?, eq_comm]
  | some tag =>
    cases b with
    | none => cases tag <;> simp [readTag?, Json.str?, eq_comm]
    | some other => simp [readTag?]

/-- An envelope is read field by field. -/
theorem ofJson?_obj (fields : List (String × Json)) :
    ofJson? (.obj fields) = (Json.required? Json.str? "type" fields).bind fun kind =>
      (readTag? (Json.lookup "source" fields) (Json.lookup "sourceTag" fields)).map fun source =>
        ⟨kind, (Json.lookup "payload" fields).getD .null, source⟩ := by
  rw [ofJson?]
  cases Json.required? Json.str? "type" fields with
  | none => rfl
  | some kind =>
    cases Json.lookup "source" fields with
    | none =>
      cases Json.lookup "sourceTag" fields with
      | none => rfl
      | some tag => cases tag <;> rfl
    | some tag =>
      cases Json.lookup "sourceTag" fields with
      | none => cases tag <;> rfl
      | some other => rfl

/-- Exactly what has the form of an envelope is one, with the type, the payload and the tag that it has. -/
theorem ofJson?_eq_some_iff {data : Json} {e : Envelope} :
    ofJson? data = some e ↔ HasForm data ∧ data.get? "type" = some (.str e.kind) ∧
      e.payload = (data.get? "payload").getD .null ∧ e.source = (tag? data).bind Json.str? := by
  cases data with
  | obj fields =>
    obtain ⟨kind, payload, source⟩ := e
    rw [ofJson?_obj]
    simp only [Option.bind_eq_some_iff, Option.map_eq_some_iff, Json.required?_str?_eq_some_iff, readTag?_eq_some_iff]
    constructor
    · rintro ⟨_, typed, _, ⟨single, tagged, rfl⟩, rest⟩
      cases rest
      exact ⟨⟨rfl, ⟨kind, typed⟩, single, tagged⟩, typed, rfl, rfl⟩
    · rintro ⟨⟨-, -, single, tagged⟩, typed, rfl, rfl⟩
      exact ⟨kind, typed, _, ⟨single, tagged, rfl⟩, rfl⟩
  | _ => exact ⟨fun h => by simp [ofJson?] at h, fun h => absurd h.1.object (by simp [Json.isObject])⟩

/-- What else is in a message makes no difference. -/
theorem ofJson?_congr {fields others : List (String × Json)}
    (h : ∀ k ∈ ["type", "payload", "source", "sourceTag"], Json.lookup k fields = Json.lookup k others) :
    ofJson? (.obj fields) = ofJson? (.obj others) := by
  simp only [List.forall_mem_cons] at h
  obtain ⟨type, payload, source, sourceTag, -⟩ := h
  rw [ofJson?_obj, ofJson?_obj, Json.required?, Json.required?, type, payload, source, sourceTag]

/-- An envelope that was written is read back. -/
theorem ofJson?_toJson (e : Envelope) : ofJson? e.toJson = some e := by
  obtain ⟨kind, payload, source⟩ := e
  have found : ∀ k, (toJson ⟨kind, payload, source⟩).get? k =
      Json.lookup k (fields ⟨kind, payload, source⟩).reverse := Json.get?_ofFields _
  have untagged : (toJson ⟨kind, payload, source⟩).get? "sourceTag" = none := by
    simp [found, fields]
  have tag : (toJson ⟨kind, payload, source⟩).get? "source" = source.map Json.str := by
    simp [found, fields]
  have typed : (toJson ⟨kind, payload, source⟩).get? "type" = some (.str kind) := by
    simp [found, fields]
  have content : (toJson ⟨kind, payload, source⟩).get? "payload" = some payload := by
    simp [found, fields]
  refine ofJson?_eq_some_iff.2 ⟨⟨rfl, ⟨kind, typed⟩, .inr untagged, ?_⟩, typed, ?_, ?_⟩
  · rw [tag?, tag, untagged, Option.or_none]
    rintro _ h
    obtain ⟨s, -, rfl⟩ := Option.map_eq_some_iff.1 h
    exact .inr ⟨s, rfl⟩
  · rw [content]
    rfl
  · rw [tag?, tag, untagged, Option.or_none]
    cases source <;> rfl

end Envelope

end InPlace

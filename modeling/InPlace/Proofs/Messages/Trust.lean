import InPlace.Proofs.Messages.Envelopes

/-!
# Trust

Which of the messages that arrive in a page the editor acts on. A message is the host's if it has the form of
an envelope, the host's tag and the window around the page for a sender; whatever else arrives is dropped
without a word. A message of the host is acted on if its type and payload are a command, and complained about
if they are not.

Main statements: `accept_eq_ok_iff`, `accept_loud_iff` and `accept_of_not_authentic`.
-/

namespace InPlace

/-- A message of the host with this type and payload: an object that carries the host's tag under one of the
two names of a tag and nothing under the other, from the window around the page. -/
structure Authentic (tag : String) (data : Json) (fromParent : Bool) (kind : String)
    (payload : Json) : Prop where
  object : data.isObject = true
  type : data.get? "type" = some (.str kind)
  payload : (data.get? "payload").getD .null = payload
  tagged : (data.get? "source" = some (.str tag) ∧ data.get? "sourceTag" = none) ∨
    (data.get? "source" = none ∧ data.get? "sourceTag" = some (.str tag))
  sender : fromParent = true

namespace Envelope

/-- The envelopes that carry a tag are the objects with a type that have it under one name only. -/
theorem ofJson?_eq_some_tagged {data : Json} {kind tag : String} {payload : Json} :
    ofJson? data = some ⟨kind, payload, some tag⟩ ↔ Authentic tag data true kind payload := by
  constructor
  · intro h
    obtain ⟨form, type, content, tagged⟩ := ofJson?_eq_some_iff.1 h
    obtain ⟨j, carried, text⟩ := Option.bind_eq_some_iff.1 tagged.symm
    cases Json.str?_eq_some_iff.1 text
    refine ⟨form.object, type, content.symm, ?_, rfl⟩
    -- an envelope has at most one of the two fields for a tag
    rcases form.single with none | none
    · rw [tag?, none, Option.none_or] at carried
      exact .inr ⟨none, carried⟩
    · rw [tag?, none, Option.or_none] at carried
      exact .inl ⟨carried, none⟩
  · rintro ⟨object, type, rfl, tagged, -⟩
    have carried : tag? data = some (.str tag) := by
      rcases tagged with ⟨hs, ht⟩ | ⟨hs, ht⟩ <;> simp [tag?, hs, ht]
    have single : data.get? "source" = none ∨ data.get? "sourceTag" = none :=
      tagged.symm.imp And.left And.right
    refine ofJson?_eq_some_iff.2 ⟨⟨object, ⟨kind, type⟩, single, ?_⟩, type, rfl, by rw [carried]; rfl⟩
    intro j hj
    exact .inr ⟨tag, Option.some.inj (hj.symm.trans carried)⟩

end Envelope

namespace TrustPolicy

variable {policy : TrustPolicy} {data : Json} {fromParent : Bool}

/-- What is made of a message of the host is what its type and payload say. -/
theorem accept_of_authentic {kind : String} {payload : Json}
    (h : Authentic policy.hostTag data fromParent kind payload) :
    policy.accept data fromParent = (Command.decode kind payload).mapError (.badCommand kind) := by
  obtain ⟨object, type, rest, tagged, rfl⟩ := h
  have read := Envelope.ofJson?_eq_some_tagged.2 ⟨object, type, rest, tagged, rfl⟩
  unfold accept
  rw [read]
  simp only [ne_eq, not_true_eq_false, if_false, Bool.not_true, Bool.false_eq_true]
  cases Command.decode kind payload <;> rfl

/-- A message that is not the host's is dropped without a word. -/
theorem accept_of_not_authentic
    (h : ¬ ∃ kind payload, Authentic policy.hostTag data fromParent kind payload) :
    ∃ r, policy.accept data fromParent = .error r ∧ r.isSilent = true := by
  unfold accept
  cases hread : Envelope.ofJson? data with
  | none => exact ⟨_, rfl, rfl⟩
  | some e =>
    obtain ⟨kind, payload, source⟩ := e
    dsimp only
    split
    · exact ⟨_, rfl, rfl⟩
    · rename_i hs
      rw [ne_eq, Decidable.not_not] at hs
      subst hs
      cases fromParent with
      | false => exact ⟨_, rfl, rfl⟩
      | true => exact absurd ⟨kind, payload, Envelope.ofJson?_eq_some_tagged.1 hread⟩ h

/-- A message is acted on exactly if it is the host's and its type and payload are a command. -/
theorem accept_eq_ok_iff {c : Command} :
    policy.accept data fromParent = .ok c ↔
      ∃ kind payload, Authentic policy.hostTag data fromParent kind payload ∧
        Command.decode kind payload = .ok c := by
  constructor
  · intro h
    by_cases ha : ∃ kind payload, Authentic policy.hostTag data fromParent kind payload
    · obtain ⟨kind, payload, authentic⟩ := ha
      refine ⟨kind, payload, authentic, ?_⟩
      rw [accept_of_authentic authentic] at h
      cases hd : Command.decode kind payload with
      | ok c' =>
        rw [hd] at h
        cases h
        rfl
      | error fault =>
        rw [hd] at h
        cases h
    · obtain ⟨r, hr, -⟩ := accept_of_not_authentic ha
      rw [hr] at h
      cases h
  · rintro ⟨kind, payload, authentic, hd⟩
    rw [accept_of_authentic authentic, hd]
    rfl

/-- What is refused with a complaint is the host's, and its type and payload are no command. -/
theorem accept_loud_iff {r : Rejection} :
    policy.accept data fromParent = .error r ∧ r.isSilent = false ↔
      ∃ kind payload fault, Authentic policy.hostTag data fromParent kind payload ∧
        Command.decode kind payload = .error fault ∧ r = .badCommand kind fault := by
  constructor
  · rintro ⟨h, loud⟩
    by_cases ha : ∃ kind payload, Authentic policy.hostTag data fromParent kind payload
    · obtain ⟨kind, payload, authentic⟩ := ha
      rw [accept_of_authentic authentic] at h
      cases hd : Command.decode kind payload with
      | ok c =>
        rw [hd] at h
        cases h
      | error fault =>
        rw [hd] at h
        exact ⟨kind, payload, fault, authentic, hd, (Except.error.inj h).symm⟩
    · obtain ⟨r', hr, silent⟩ := accept_of_not_authentic ha
      cases Except.error.inj (hr.symm.trans h)
      exact absurd (silent.symm.trans loud) (by decide)
  · rintro ⟨kind, payload, fault, authentic, hd, rfl⟩
    rw [accept_of_authentic authentic, hd]
    exact ⟨rfl, rfl⟩

end TrustPolicy

end InPlace

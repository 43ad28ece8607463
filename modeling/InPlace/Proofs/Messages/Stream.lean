import InPlace.Proofs.Messages.Topic

/-!
# Streams of messages

What a host may rely on in the messages of an editor, in the order in which they are sent. What a message may
say depends on those before it; only the begin of an edit also asks for the message after it.

Main statements: `WellSpoken.append` and `WellSpoken.snoc` (what may be sent after a stream).
-/

namespace InPlace.Envelope

/-- Whether a message is on the begin or the end of an edit. -/
def isEdit (m : Envelope) : Bool :=
  m.topic? == some .editStarted || m.topic? == some .editEnded

/-- Whether a message tells a mode. -/
def isMode (m : Envelope) : Bool :=
  match m.topic? with
  | some (.mode _) => true
  | _ => false

/-- The last message on the begin or the end of an edit. -/
def lastEdit? (ms : List Envelope) : Option Envelope :=
  (ms.filter isEdit).getLast?

/-- The last message that tells a mode. -/
def lastMode? (ms : List Envelope) : Option Envelope :=
  (ms.filter isMode).getLast?

/-- An edit began last, with this message. -/
def Open (ms : List Envelope) (b : Envelope) : Prop :=
  lastEdit? ms = some b ∧ b.topic? = some .editStarted

/-- No mode was told or the last one is `disabled`. -/
def SaysDisabled (ms : List Envelope) : Prop :=
  ∀ k, lastMode? ms = some k → k.topic? = some (.mode .disabled)

/-- Whether a message may stand where it does, after these messages and before those. -/
def Follows (before : List Envelope) (m : Envelope) (after : List Envelope) : Prop :=
  match m.topic? with
  | some .ready => ∀ k ∈ before, k.topic? ≠ some .ready
  | some .editStarted =>
    (∀ b, ¬ Open before b) ∧ ∃ p rest, after = p :: rest ∧ p.topic? = some .editor
  | some .editor => ∃ b, before.getLast? = some b ∧ b.topic? = some .editStarted
  | some .editEnded | some .text =>
    ∃ b i, Open before b ∧ b.identity? = some i ∧ m.metadata? = some i
  | some (.mode .disabled) => ¬ SaysDisabled before
  | some _ => True
  | none => False

/-- Every message of a stream may stand where it does. -/
def WellSpoken (ms : List Envelope) : Prop :=
  ∀ before m after, ms = before ++ m :: after → Follows before m after

section

variable {before after ms ns : List Envelope} {m b : Envelope}

/-- More messages at the end of a stream do not put those within it out of place. -/
theorem Follows.append (h : Follows before m after) (ns : List Envelope) :
    Follows before m (after ++ ns) := by
  unfold Follows at h ⊢
  split at h
  · exact h
  · obtain ⟨closed, p, rest, rfl, hp⟩ := h
    exact ⟨closed, p, rest ++ ns, rfl, hp⟩
  all_goals exact h

theorem wellSpoken_nil : WellSpoken [] := by
  intro before m after h
  simp at h

/-- A stream may go on with messages that may stand where they do after it. -/
theorem WellSpoken.append (h : WellSpoken ms)
    (hns : ∀ before m after, ns = before ++ m :: after → Follows (ms ++ before) m after) :
    WellSpoken (ms ++ ns) := by
  intro before m after heq
  -- a new message is in place by assumption, an old one stays in place by `Follows.append`
  rcases List.append_eq_append_iff.1 heq with ⟨c, rfl, hc⟩ | ⟨c, hms, hc⟩
  · exact hns c m after hc
  · cases c with
    | nil =>
      rw [List.nil_append] at hc
      rw [List.append_nil] at hms
      subst hms
      have first := hns [] m after (by rw [List.nil_append, hc])
      rwa [List.append_nil] at first
    | cons k c =>
      cases hc
      exact (h before m c hms).append ns

/-- A stream goes on well with a message that may follow. -/
theorem WellSpoken.snoc (h : WellSpoken ms) (hm : Follows ms m []) : WellSpoken (ms ++ [m]) := by
  apply h.append
  intro before k after heq
  rcases List.cons_eq_append_iff.1 heq with ⟨rfl, hk⟩ | ⟨c, -, hc⟩
  · cases hk
    rwa [List.append_nil]
  · simp at hc

/-- A stream in which no edit is open may go on with the begin of one. -/
theorem WellSpoken.begin (h : WellSpoken ms) (hopen : ∀ b, ¬ Open ms b)
    (hb : b.topic? = some .editStarted) (hm : m.topic? = some .editor) :
    WellSpoken (ms ++ [b, m]) := by
  apply h.append
  intro before k after heq
  rcases List.cons_eq_append_iff.1 heq with ⟨rfl, hk⟩ | ⟨c, rfl, hc⟩
  · cases hk
    rw [List.append_nil]
    unfold Follows
    rw [hb]
    exact ⟨hopen, m, [], rfl, hm⟩
  · rcases List.cons_eq_append_iff.1 hc with ⟨rfl, hk⟩ | ⟨c', -, hc'⟩
    · cases hk
      unfold Follows
      rw [hm]
      exact ⟨b, by simp, hb⟩
    · simp at hc'

theorem lastEdit?_append (ms ns : List Envelope) :
    lastEdit? (ms ++ ns) = (lastEdit? ns).or (lastEdit? ms) := by
  unfold lastEdit?
  rw [List.filter_append, List.getLast?_append]

theorem lastMode?_append (ms ns : List Envelope) :
    lastMode? (ms ++ ns) = (lastMode? ns).or (lastMode? ms) := by
  unfold lastMode?
  rw [List.filter_append, List.getLast?_append]

/-- A message that neither begins nor ends an edit leaves open what was open. -/
theorem open_snoc (h : m.isEdit = false) (b : Envelope) : Open (ms ++ [m]) b ↔ Open ms b := by
  unfold Open
  rw [lastEdit?_append, show lastEdit? [m] = none by simp [lastEdit?, h], Option.none_or]

/-- After a message that an edit began it is the one that is open. -/
theorem open_snoc_started (h : m.topic? = some .editStarted) : Open (ms ++ [m]) m := by
  have edit : m.isEdit = true := by simp [isEdit, h]
  refine ⟨?_, h⟩
  rw [lastEdit?_append, show lastEdit? [m] = some m by simp [lastEdit?, edit], Option.some_or]

/-- After a message that an edit ended none is open. -/
theorem not_open_snoc_ended (h : m.topic? = some .editEnded) (b : Envelope) :
    ¬ Open (ms ++ [m]) b := by
  have edit : m.isEdit = true := by simp [isEdit, h]
  rintro ⟨hb, hs⟩
  rw [lastEdit?_append, show lastEdit? [m] = some m by simp [lastEdit?, edit], Option.some_or] at hb
  cases hb
  exact absurd (h.symm.trans hs) (by decide)

/-- A message that tells no mode leaves it at the mode that was told. -/
theorem saysDisabled_snoc (h : m.isMode = false) : SaysDisabled (ms ++ [m]) ↔ SaysDisabled ms := by
  unfold SaysDisabled
  rw [lastMode?_append, show lastMode? [m] = none by simp [lastMode?, h], Option.none_or]

theorem saysDisabled_snoc_mode {k : EditMode} (h : m.topic? = some (.mode k)) :
    SaysDisabled (ms ++ [m]) ↔ k = .disabled := by
  have mode : m.isMode = true := by simp [isMode, h]
  unfold SaysDisabled
  rw [lastMode?_append, show lastMode? [m] = some m by simp [lastMode?, mode], Option.some_or]
  simp [h]

end

end InPlace.Envelope

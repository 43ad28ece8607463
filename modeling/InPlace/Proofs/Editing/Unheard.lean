import InPlace.Proofs.Editing.Alike

/-!
# Editors that nobody hears

A message to the host may fail, and the editor goes on as if it had arrived. So an editor none of whose messages
arrive is, after every run, in the same state and in the same document as one whose messages all do, it remembers
the same names, and it gives the same answers. All that shows is that nothing was sent, and that the log has one
more entry for each message of the other.

Main statement: `unheard_run`.
-/

namespace InPlace

open Headless (Document Unread)

namespace Headless

/-- The second page has sent nothing, and has logged what the first has logged and an entry for each message that
the first has sent. -/
structure Unsent (p q : Headless) : Prop where
  sent : q.outbox.sent = []
  logged : p.journal.Sublist q.journal
  undelivered : q.journal.length = p.journal.length + p.outbox.sent.length

/-- Pages that differ in what they have sent and logged only, and if messages fail in the second page alone, by those
messages only. -/
structure Silenced (p q : Headless) : Prop where
  bare : q.bare = p.bare
  unsent : p.outbox.failing = false → q.outbox.failing = true → Unsent p q

section

variable {p q : Headless}

theorem Unsent.log (h : Unsent p q) (x : LogEntry) :
    Unsent { p with journal := p.journal ++ [x] } { q with journal := q.journal ++ [x] } where
  sent := h.sent
  logged := h.logged.append (List.Sublist.refl [x])
  undelivered := by
    have counted := h.undelivered
    simp only [List.length_append, List.length_singleton]
    omega

/-- A message of the first page is an entry in the log of the second. -/
theorem Unsent.say (h : Unsent p q) (m : Envelope) (failure : LogEntry) :
    Unsent { p with outbox.sent := p.outbox.sent ++ [m] } { q with journal := q.journal ++ [failure] } where
  sent := h.sent
  logged := h.logged.trans (List.sublist_append_left _ _)
  undelivered := by
    have counted := h.undelivered
    simp only [List.length_append, List.length_singleton]
    omega

theorem Silenced.clock_eq (h : Silenced p q) : q.clock = p.clock := by
  have same := congrArg Headless.clock h.bare
  exact same

theorem Silenced.document_eq (h : Silenced p q) : q.document = p.document := by
  have same := congrArg Headless.document h.bare
  exact same

theorem bare_say (h : Headless) (m : Envelope) (failure : LogEntry) : (h.say m failure).bare = h.bare := by
  unfold say
  split <;> rfl

theorem failing_say (h : Headless) (m : Envelope) (failure : LogEntry) :
    (h.say m failure).outbox.failing = h.outbox.failing := by
  unfold say
  split <;> rfl

/-- No editor can tell such pages apart. -/
theorem unread_silenced : Unread Silenced where
  bare h := h.bare
  document h d := by
    refine ⟨?_, fun hp hq => ⟨(h.unsent hp hq).sent, (h.unsent hp hq).logged, (h.unsent hp hq).undelivered⟩⟩
    unfold Headless.bare
    rw [h.clock_eq]
  clock h time := by
    refine ⟨?_, fun hp hq => ⟨(h.unsent hp hq).sent, (h.unsent hp hq).logged, (h.unsent hp hq).undelivered⟩⟩
    unfold Headless.bare
    rw [h.document_eq]
  channel h failing := by
    refine ⟨h.bare, fun hp hq => ?_⟩
    exact absurd (hp.symm.trans hq) Bool.false_ne_true
  log h x := ⟨h.bare, fun hp hq => (h.unsent hp hq).log x⟩
  say {p q} h m failure := by
    refine ⟨?_, fun hp hq => ?_⟩
    · rw [bare_say, bare_say]
      exact h.bare
    · rw [failing_say] at hp hq
      have before := h.unsent hp hq
      unfold Headless.say
      rw [if_neg (by rw [hp]; exact Bool.false_ne_true), if_pos hq]
      exact before.say m failure

end

end Headless

open Headless (Silenced)

/-- What an operation answers to the one who asked for it. -/
inductive Answer where
  | nothing
  | outcome (o : Outcome)
  /-- What came of a message, if it was acted on. -/
  | received (o : Option Outcome)
  /-- Whether the mode changed. -/
  | changed (b : Bool)
  | response (r : Response)
  deriving DecidableEq, Repr

namespace Editor

/-- What an editor answers to an operation. -/
def answer (e : HeadlessEditor) : Operation → Answer
  | .contentChanged | .startEdit _ | .endEdit _ => .nothing
  | .receive data fromParent => .received (e.receive data fromParent).2
  | .command c => .outcome (e.handleCommand c).2
  | .setMode m => .changed (e.setMode m).2
  | .event ev => .response (e.handleEvent ev).2

/-- The second editor is in the state of the first and in the same document, and nobody has heard of it. -/
structure Unheard (e e' : HeadlessEditor) : Prop where
  state : e'.state = e.state
  names : e'.names = e.names
  document : e'.page.document = e.page.document
  sent : e'.page.outbox.sent = []
  /-- The log tells what the other log tells, and of each message that the other editor sent. -/
  logged : e.page.journal.Sublist e'.page.journal
  undelivered : e'.page.journal.length = e.page.journal.length + e.page.outbox.sent.length

namespace Alike

variable {R : Headless → Headless → Prop} {e e' : HeadlessEditor} (h : Alike R e e')

include h

/-- Editors that are alike answer alike. -/
theorem answer_eq (o : Operation) : e'.answer o = e.answer o := by
  cases o with
  | contentChanged => rfl
  | receive data fromParent => exact congrArg Answer.received (h.receive data fromParent).answer
  | command c => exact congrArg Answer.outcome (h.handleCommand c).answer
  | setMode m => exact congrArg Answer.changed (h.setMode m).answer
  | event ev => exact congrArg Answer.response (h.handleEvent ev).answer
  | startEdit n => rfl
  | endEdit commit => rfl

/-- Editors that are alike stay so in the same run. -/
theorem run (xs : List Step) : Alike R (e.run xs) (e'.run xs) := by
  induction xs generalizing e e' with
  | nil => exact h
  | cons x xs ih => exact ih (h.step x)

end Alike

/-- Neither an operation nor an edit of the page breaks or mends the channel. -/
theorem failing_step (e : HeadlessEditor) {x : Step} (hx : ∀ failing, x ≠ .channel failing) :
    (e.step x).page.outbox.failing = e.page.outbox.failing := by
  cases x with
  | page x => exact (edit_only e x).failing_eq (by simp)
  | clock time => exact (clock_only e time).failing_eq (by decide)
  | channel failing => exact absurd rfl (hx failing)
  | operate o =>
    by_cases ho : o = .contentChanged
    · subst ho
      exact (contentChanged_only e).failing_eq (by decide)
    · exact (operate_only e ho).failing_eq (by decide)

theorem failing_run (e : HeadlessEditor) {xs : List Step} (hxs : ∀ failing, .channel failing ∉ xs) :
    (e.run xs).page.outbox.failing = e.page.outbox.failing := by
  refine run_induction (P := fun e' => e'.page.outbox.failing = e.page.outbox.failing) rfl ?_
  intro x hx e' h
  exact (failing_step e' fun failing heq => hxs failing (heq ▸ hx)).trans h

/-- Of two editors that are put into the same page and go through the same run, the one none of whose messages
arrive ends as the other one does, but for the messages, and whatever is asked of both then, they give the same
answer. -/
theorem unheard_run (d : Document) (config : EditorConfig) (time : String) {xs : List Step}
    (hxs : ∀ failing, .channel failing ∉ xs) :
    let e := (new d config time).run xs
    let e' := ((new d config time).step (.channel true)).run xs
    Unheard e e' ∧ ∀ o, e'.answer o = e.answer o := by
  intro e e'
  have begun : Alike Silenced (new d config time) ((new d config time).step (.channel true)) :=
    ⟨Headless.unread_silenced, ⟨rfl, fun _ _ => ⟨rfl, List.Sublist.refl _, rfl⟩⟩, rfl, rfl, rfl⟩
  have alike : Alike Silenced e e' := begun.run xs
  have whole : e.page.outbox.failing = false := failing_run (new d config time) hxs
  have broken : e'.page.outbox.failing = true := failing_run _ hxs
  have unsent := alike.page.unsent whole broken
  exact ⟨⟨alike.state, alike.names, alike.document_eq, unsent.sent, unsent.logged, unsent.undelivered⟩,
    alike.answer_eq⟩

/-- A paragraph is selected and edited, the host tries out a style, and then deletes the paragraph. -/
theorem unheard_run_delete :
    let xs : List Step := [.page (.appendIdentified 0 "p" "a.tsx:1:0"), .page (.appendText 1 "Hello"),
      .operate (.setMode .enabled), .operate (.event (.click 1)), .operate (.event (.input 1)),
      .operate (.command (.updateStyles [("color", "red")])), .operate (.command .deleteElement)]
    let e := (new .empty {} "").run xs
    let e' := ((new .empty {} "").step (.channel true)).run xs
    e.page.outbox.sent.map Envelope.kind = ["EDIT_MODE_STATE", "ELEMENT_CLICKED", "INLINE_EDIT_STATE",
        "OPEN_EDITOR_POPOVER", "ELEMENT_TEXT_UPDATED", "INLINE_EDIT_STATE"] ∧
      Unheard e e' ∧ e'.answer (.event (.click 1)) = .response .block := by
  intro xs e e'
  have alike := @unheard_run .empty {} "" xs (by simp [xs])
  have answered : e.answer (.event (.click 1)) = .response .block := by decide +kernel
  exact ⟨by decide +kernel, alike.1, (alike.2 _).trans answered⟩

end Editor

end InPlace

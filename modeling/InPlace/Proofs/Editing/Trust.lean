import InPlace.Proofs.Editing.Alike
import InPlace.Proofs.Messages.Trust

/-!
# Messages of strangers

Anything may be sent to a page, and what is not a command of the host leaves nothing behind but a log entry:
after a run the editor, its document and what it has sent are as if such messages had never come. Those that
are not the host's at all do not even show among the log entries that anyone reads.

Main statement: `trust_run`.
-/

namespace InPlace

namespace TrustPolicy

/-- Whether a message is acted on. -/
def admits (policy : TrustPolicy) (data : Json) (fromParent : Bool) : Bool :=
  (policy.accept data fromParent).isOk

/-- Whether a message is dropped without a word. -/
def drops (policy : TrustPolicy) (data : Json) (fromParent : Bool) : Bool :=
  match policy.accept data fromParent with
  | .ok _ => false
  | .error r => r.isSilent

/-- What is dropped without a word is what is not the host's. -/
theorem drops_iff {policy : TrustPolicy} {data : Json} {fromParent : Bool} :
    policy.drops data fromParent = true ↔
      ¬ ∃ kind payload, Authentic policy.hostTag data fromParent kind payload := by
  constructor
  · rintro h ⟨kind, payload, authentic⟩
    unfold drops at h
    rw [accept_of_authentic authentic] at h
    cases hd : Command.decode kind payload with
    | ok c => rw [hd] at h; exact Bool.false_ne_true h
    | error fault => rw [hd] at h; exact Bool.false_ne_true h
  · intro h
    obtain ⟨r, hr, silent⟩ := accept_of_not_authentic h
    unfold drops
    rw [hr]
    exact silent

end TrustPolicy

namespace Step

/-- Whether a step is a message that is not acted on. -/
def isRefused (policy : TrustPolicy) : Step → Bool
  | operate (.receive data fromParent) => !policy.admits data fromParent
  | _ => false

/-- Whether a step is a message that is dropped without a word. -/
def isDropped (policy : TrustPolicy) : Step → Bool
  | operate (.receive data fromParent) => policy.drops data fromParent
  | _ => false

end Step

namespace Headless

/-- Pages that differ in their logs only, and there in entries that nobody hears of. -/
structure LogsApart (heard : LogEntry → Bool) (p q : Headless) : Prop where
  document : q.document = p.document
  outbox : q.outbox = p.outbox
  clock : q.clock = p.clock
  journal : q.journal.filter heard = p.journal.filter heard

variable {heard : LogEntry → Bool} {p q : Headless}

theorem LogsApart.log (h : LogsApart heard p q) (x : LogEntry) :
    LogsApart heard { p with journal := p.journal ++ [x] } { q with journal := q.journal ++ [x] } := by
  refine { h with journal := ?_ }
  show (q.journal ++ [x]).filter heard = (p.journal ++ [x]).filter heard
  rw [List.filter_append, List.filter_append, h.journal]

/-- An entry that nobody hears of may stand in one log only. -/
theorem LogsApart.log_left (h : LogsApart heard p q) {x : LogEntry} (hx : heard x = false) :
    LogsApart heard { p with journal := p.journal ++ [x] } q := by
  refine { h with journal := ?_ }
  show _ = (p.journal ++ [x]).filter heard
  rw [List.filter_append, List.filter_cons_of_neg (by simp [hx]), List.filter_nil, List.append_nil]
  exact h.journal

/-- No editor can tell such pages apart. -/
theorem unread_logsApart (heard : LogEntry → Bool) : Unread (LogsApart heard) where
  bare h := by
    unfold bare
    rw [h.document, h.clock]
  document h d := { h with document := rfl }
  clock h time := { h with clock := rfl }
  channel h failing := { h with outbox := by dsimp only; rw [h.outbox] }
  log h x := h.log x
  say h m failure := by
    have same := congrArg Outbox.failing h.outbox
    unfold say
    rw [same]
    split
    · exact h.log failure
    · exact { h with outbox := congrArg (fun o : Outbox => { o with sent := o.sent ++ [m] }) h.outbox }

end Headless

open Headless (Document LogsApart)

namespace Editor

/-- The second editor is in the state of the first, in the same document, and has sent and told the same. -/
structure SameButLog (heard : LogEntry → Bool) (e e' : HeadlessEditor) : Prop where
  state : e'.state = e.state
  names : e'.names = e.names
  document : e'.page.document = e.page.document
  sent : e'.page.outbox = e.page.outbox
  heard : e'.page.journal.filter heard = e.page.journal.filter heard

section

variable {e e' : HeadlessEditor} {heard : LogEntry → Bool}

/-- The configuration stays. -/
theorem config_step (e : HeadlessEditor) (x : Step) : (e.step x).config = e.config := by
  cases x with
  | page x => rfl
  | clock time => rfl
  | channel failing => rfl
  | operate o =>
    by_cases h : o = .contentChanged
    · subst h
      exact (contentChanged_only e).config
    · exact (operate_only e h).config

/-- A message that is refused is logged, and nothing else happens. -/
theorem step_of_isRefused {x : Step} (h : x.isRefused ⟨e.config.hostTag⟩ = true) :
    ∃ level message fields, e.step x = e.log level message fields := by
  cases x with
  | operate o =>
    cases o with
    | receive data fromParent =>
      rcases receive_cases e data fromParent with ⟨r, level, message, fields, -, heq⟩ | ⟨c, hc, -⟩
      · exact ⟨level, message, fields, heq⟩
      · simp [Step.isRefused, TrustPolicy.admits, hc, Except.isOk, Except.toBool] at h
    | _ => simp [Step.isRefused] at h
  | _ => simp [Step.isRefused] at h

/-- A message that is dropped is logged at the lowest level, and nothing else happens. -/
theorem step_of_isDropped {x : Step} (h : x.isDropped ⟨e.config.hostTag⟩ = true) :
    ∃ message fields, e.step x = e.log .trace message fields := by
  cases x with
  | operate o =>
    cases o with
    | receive data fromParent =>
      have drops : TrustPolicy.drops ⟨e.config.hostTag⟩ data fromParent = true := h
      unfold TrustPolicy.drops at drops
      cases hr : TrustPolicy.accept ⟨e.config.hostTag⟩ data fromParent with
      | ok c => simp [hr] at drops
      | error r =>
        have silent : r.isSilent = true := by simpa [hr] using drops
        refine ⟨"Dropped inbound message", [("reason", r.message)], ?_⟩
        show (e.receive data fromParent).1 = _
        simp [receive, hr, silent]
    | _ => simp [Step.isDropped] at h
  | _ => simp [Step.isDropped] at h

/-- Steps that leave nothing but a log entry that nobody hears of may be left out of a run. -/
theorem alike_run_filter {idle : Step → Bool} {tag : String}
    (hidle : ∀ (e : HeadlessEditor) x, e.config.hostTag = tag → idle x = true →
      ∃ level message fields, e.step x = e.log level message fields ∧
        heard ⟨level, message, fields⟩ = false)
    (xs : List Step) (htag : e.config.hostTag = tag) (h : Alike (LogsApart heard) e e') :
    Alike (LogsApart heard) (e.run xs) (e'.run (xs.filter fun x => !idle x)) := by
  induction xs generalizing e e' with
  | nil => exact h
  | cons x xs ih =>
    have next : (e.step x).config.hostTag = tag := by rw [config_step, htag]
    -- a step that is left out only adds to the log of the longer run
    cases hx : idle x with
    | true =>
      obtain ⟨level, message, fields, heq, quiet⟩ := hidle e x htag hx
      rw [List.filter_cons_of_neg (by simp [hx])]
      refine ih next ?_
      rw [heq]
      exact { h with page := h.page.log_left quiet }
    | false =>
      rw [List.filter_cons_of_pos (by simp [hx])]
      exact ih next (h.step x)

theorem Alike.sameButLog (h : Alike (LogsApart heard) e e') : SameButLog heard e e' :=
  ⟨h.state, h.names, h.page.document, h.page.outbox, h.page.journal⟩

end

/-- The editor acts on a message exactly if it is the host's and says a command, and complains of one only if
it is the host's. In every run the messages that it does not act on could as well not have come, and those that
are not the host's not even for a reader of its warnings. -/
theorem trust_run (d : Document) (config : EditorConfig) (time : String) (xs : List Step) :
    (∀ data fromParent c, (TrustPolicy.mk config.hostTag).accept data fromParent = .ok c ↔
      ∃ kind payload, Authentic config.hostTag data fromParent kind payload ∧
        Command.decode kind payload = .ok c) ∧
    (∀ data fromParent r,
      (TrustPolicy.mk config.hostTag).accept data fromParent = .error r ∧ r.isSilent = false ↔
        ∃ kind payload fault, Authentic config.hostTag data fromParent kind payload ∧
          Command.decode kind payload = .error fault ∧ r = .badCommand kind fault) ∧
    (∀ data fromParent, (TrustPolicy.mk config.hostTag).drops data fromParent = true ↔
      ¬ ∃ kind payload, Authentic config.hostTag data fromParent kind payload) ∧
    SameButLog (fun _ => false) ((new d config time).run xs)
      ((new d config time).run (xs.filter fun x => !x.isRefused ⟨config.hostTag⟩)) ∧
    SameButLog (fun x => x.level != .trace) ((new d config time).run xs)
      ((new d config time).run (xs.filter fun x => !x.isDropped ⟨config.hostTag⟩)) := by
  have self : ∀ heard, Alike (LogsApart heard) (new d config time) (new d config time) :=
    fun heard => ⟨Headless.unread_logsApart heard, ⟨rfl, rfl, rfl, rfl⟩, rfl, rfl, rfl⟩
  refine ⟨fun _ _ _ => TrustPolicy.accept_eq_ok_iff, fun _ _ _ => TrustPolicy.accept_loud_iff,
    fun _ _ => TrustPolicy.drops_iff, Alike.sameButLog ?_, Alike.sameButLog ?_⟩
  · refine alike_run_filter ?_ xs rfl (self _)
    intro e x htag hx
    obtain ⟨level, message, fields, heq⟩ := step_of_isRefused (htag ▸ hx)
    exact ⟨level, message, fields, heq, rfl⟩
  · refine alike_run_filter ?_ xs rfl (self _)
    intro e x htag hx
    obtain ⟨message, fields, heq⟩ := step_of_isDropped (htag ▸ hx)
    exact ⟨.trace, message, fields, heq, rfl⟩

end Editor

end InPlace

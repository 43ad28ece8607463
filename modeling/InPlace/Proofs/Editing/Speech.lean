import InPlace.Proofs.Editing.Names
import InPlace.Proofs.Messages.Stream

/-!
# What the host hears

The messages of an editor in a run, as long as none of them fails. They form a stream that a host can
follow: the begins and the ends of edits take turns, each begin brings the editor's popover up, texts and
reports carry the identity with which the edit began, and the last mode that is told says whether the editor
is disabled.

Main statements: `speaks_kept` (every piece of the operations keeps this), `told_ready_run` (when the host
hears of the elements that there are to edit) and `wellSpoken_run` (all of it holds after every run).
-/

namespace InPlace

open Headless (Document Part PageEdit)
open Envelope (Open SaysDisabled WellSpoken Follows identityJson)

namespace Editor

section

variable {as : List Aspect} {e e' : HeadlessEditor} {m : Envelope}

/-! ## The identity of an edited element -/

/-- The names of an element that is marked as edited are those it was looked up with. -/
theorem naming_opened {n : NodeId} {page : Headless}
    (hp : markEdited (e.metadata n).2.page n = .ok page) (text : String) (i : Option Identity) :
    ((e.marked n page).opened n text i).names.naming ((e.marked n page).opened n text i).page n =
      e.names.naming e.page n := by
  have through := (marked_only hp).trans (opened_only (e.marked n page) n text i)
  have remembered : ((e.marked n page).opened n text i).names = e.names.remember e.page n :=
    names_opened (e.marked n page) n text i
  have same : Page.attribute? ((e.marked n page).opened n text i).page n identityAttribute =
      Page.attribute? e.page n identityAttribute := through.attribute?_eq (by decide) n
  rw [remembered, NameCache.naming_remember e.names same]

/-- The begin of an edit is told with the identity that its session has. -/
theorem sent_beginEdit (hf : e.page.outbox.failing = false) {n : NodeId} {page : Headless}
    (hp : markEdited (e.metadata n).2.page n = .ok page) (text : String) (i : Option Identity) :
    ∃ b p, b.topic? = some .editStarted ∧
      b.identity? = some (identityJson (e.metadata n).1.identity) ∧ p.topic? = some .editor ∧
      ((e.marked n page).openEdit n text i).page.outbox.sent = e.page.outbox.sent ++ [b, p] := by
  have marked := marked_only hp
  obtain ⟨d, p, identity, hpop, sent⟩ :=
    sent_openEdit ((marked.failing_eq (by decide)).trans hf) n text i
  rw [naming_opened hp] at identity
  rw [marked.sent_eq (by decide), marked.config] at sent
  refine ⟨_, p, Envelope.topic?_ofNotice _ _, ?_, hpop, sent⟩
  rw [Envelope.identity_editStarted, identity, identity_metadata]

/-! ## What the host knows -/

/-- The messages form a stream that a host can follow, and tell it the mode and whether a text is edited. -/
structure Speaks (e : HeadlessEditor) : Prop where
  channel : e.page.outbox.failing = false
  spoken : WellSpoken e.page.outbox.sent
  begun : ∀ s, e.state.session = some s →
    ∃ b, Open e.page.outbox.sent b ∧ b.identity? = some (identityJson s.identity)
  idle : e.state.session = none → ∀ b, ¬ Open e.page.outbox.sent b
  mode : SaysDisabled e.page.outbox.sent ↔ e.state.mode = .disabled
  unready : e.state.ready = false → ∀ k ∈ e.page.outbox.sent, k.topic? ≠ some .ready

/-- The aspects that say what the host hears, and what it is to know. -/
abbrev speech : List Aspect :=
  [.channel, .outbox, .session, .mode, .ready]

/-- An editor goes on to speak well where it says nothing and its session stays. -/
theorem Speaks.of_only (k : Speaks e) (h : Only as e e') (ha : ∀ a ∈ speech, a ∉ as) : Speaks e' := by
  have sent := h.sent_eq (ha _ (by decide))
  have session := h.session_eq (ha _ (by decide))
  refine ⟨(h.failing_eq (ha _ (by decide))).trans k.channel, ?_, ?_, ?_, ?_, ?_⟩
  · rw [sent]
    exact k.spoken
  · intro s hs
    rw [sent]
    exact k.begun s (session.symm.trans hs)
  · intro hs
    rw [sent]
    exact k.idle (session.symm.trans hs)
  · rw [sent, h.mode_eq (ha _ (by decide))]
    exact k.mode
  · intro hr
    rw [sent]
    exact k.unready ((h.ready_eq (ha _ (by decide))).symm.trans hr)

/-- One more message that is neither on the begin or the end of an edit nor on the mode. -/
theorem Speaks.say (k : Speaks e) (hf : e'.page.outbox.failing = e.page.outbox.failing)
    (sent : e'.page.outbox.sent = e.page.outbox.sent ++ [m])
    (hm : Follows e.page.outbox.sent m []) (hedit : m.isEdit = false) (hmode : m.isMode = false)
    (session : e'.state.session = e.state.session) (mode : e'.state.mode = e.state.mode)
    (ready : e'.state.ready = false → e.state.ready = false ∧ m.topic? ≠ some .ready) :
    Speaks e' := by
  refine ⟨hf.trans k.channel, ?_, ?_, ?_, ?_, ?_⟩
  · rw [sent]
    exact k.spoken.snoc hm
  · intro s hs
    obtain ⟨b, hb, hi⟩ := k.begun s (session.symm.trans hs)
    rw [sent]
    exact ⟨b, (Envelope.open_snoc hedit b).2 hb, hi⟩
  · intro hs b
    rw [sent, Envelope.open_snoc hedit]
    exact k.idle (session.symm.trans hs) b
  · rw [sent, Envelope.saysDisabled_snoc hmode, mode]
    exact k.mode
  · intro hr j hj
    obtain ⟨hr', hne⟩ := ready hr
    rw [sent] at hj
    rcases List.mem_append.1 hj with hj | hj
    · exact k.unready hr' j hj
    · rw [List.mem_singleton.1 hj]
      exact hne

theorem speaks_tell {n : Notice} (ht : n.topic ∈ [Topic.selection, .hover, .cleared])
    (k : Speaks e) : Speaks (e.tell n) := by
  have told := tell_only e n.topic rfl
  have topic := Envelope.topic?_ofNotice n e.config.editorTag
  simp only [List.mem_cons, List.not_mem_nil, or_false] at ht
  have aside : Follows e.page.outbox.sent (.ofNotice n e.config.editorTag) [] ∧
      (Envelope.ofNotice n e.config.editorTag).isEdit = false ∧
      (Envelope.ofNotice n e.config.editorTag).isMode = false ∧
      (Envelope.ofNotice n e.config.editorTag).topic? ≠ some .ready := by
    rcases ht with ht | ht | ht <;> simp [Follows, Envelope.isEdit, Envelope.isMode, topic, ht]
  obtain ⟨follows, edit, mode, ready⟩ := aside
  exact k.say (told.failing_eq (by simp)) (tell_sent k.channel n) follows edit mode
    (told.session_eq (by simp)) (told.mode_eq (by simp))
    fun hr => ⟨(told.ready_eq (by simp)).symm.trans hr, ready⟩

/-- The host is told that there is something to edit only while it does not know. -/
theorem speaks_announce (k : Speaks e) : Speaks e.announce := by
  rcases announce_cases e with ⟨-, h⟩ | ⟨-, h⟩ | ⟨hr, -, h⟩
  · rwa [h]
  · rw [h]
    exact k.of_only (log_only e _ _ _) (by decide)
  · have readied := readied_only e
    have told := readied.trans (tell_only e.readied .ready (n := .ready e.readiness) rfl)
    have sent := tell_sent ((readied.failing_eq (by decide)).trans k.channel) (.ready e.readiness)
    rw [readied.sent_eq (by decide), readied.config] at sent
    rw [h]
    refine k.say (told.failing_eq (by decide)) sent (k.unready hr) rfl rfl
      (told.session_eq (by decide)) (told.mode_eq (by decide)) ?_
    intro hf
    rw [tell_state] at hf
    exact absurd (show true = false from hf) (by decide)

/-- The end of an edit is told with the identity that its begin was told with. -/
theorem speaks_endEdit (commit : Bool) (k : Speaks e) : Speaks (e.endEdit commit) := by
  cases hs : e.state.session with
  | none => rwa [endEdit_of_none hs]
  | some s =>
    have ended := endEdit_only e commit
    have sent := sent_endEdit hs k.channel commit
    have topic := Envelope.topic?_ofNotice (.editEnded
      (s.outcome (e.page.document.textContent s.element) commit)) e.config.editorTag
    rw [Notice.topic_editEnded_outcome] at topic
    -- the begin that is still open is the one of this session, and it was told with the same identity
    obtain ⟨b, hb, hi⟩ := k.begun s hs
    refine ⟨(ended.failing_eq (by decide)).trans k.channel, ?_, ?_, ?_, ?_, ?_⟩
    · rw [sent]
      refine k.spoken.snoc ?_
      unfold Follows
      rw [topic]
      exact ⟨b, _, hb, hi, Envelope.metadata_editEnded _ _⟩
    · intro t ht
      exact absurd ((session_endEdit e commit).symm.trans ht) (by simp)
    · intro _
      rw [sent]
      exact Envelope.not_open_snoc_ended topic
    · rw [sent, Envelope.saysDisabled_snoc (by simp [Envelope.isMode, topic]),
        ended.mode_eq (by decide)]
      exact k.mode
    · intro hr j hj
      rw [sent] at hj
      rcases List.mem_append.1 hj with hj | hj
      · exact k.unready ((ended.ready_eq (by decide)).symm.trans hr) j hj
      · rw [List.mem_singleton.1 hj, topic]
        decide

/-- The begin of an edit is told where none is open, with the identity of its session. -/
theorem speaks_beginEdit (n : NodeId) (hs : e.state.session = none) (k : Speaks e) :
    Speaks (e.beginEdit n) := by
  rcases beginEdit_cases e n with ⟨page, hp, heq⟩ | ⟨fault, heq⟩
  · have begun := beginEdit_only e n
    obtain ⟨b, p, hb, hi, hpop, sent⟩ := sent_beginEdit k.channel hp
      (e.page.document.textContent n) (e.metadata n).1.identity
    rw [← heq] at sent
    have last : e.page.outbox.sent ++ [b, p] = (e.page.outbox.sent ++ [b]) ++ [p] := by simp
    have edit : p.isEdit = false := by simp [Envelope.isEdit, hpop]
    have session : (e.beginEdit n).state.session =
        some ⟨n, e.page.document.textContent n, (e.metadata n).1.identity⟩ := by
      rw [heq]
      exact session_openEdit _ n _ _
    refine ⟨(begun.failing_eq (by decide)).trans k.channel, ?_, ?_, ?_, ?_, ?_⟩
    · rw [sent]
      exact k.spoken.begin (k.idle hs) hb hpop
    · intro t ht
      cases session.symm.trans ht
      rw [sent, last]
      exact ⟨b, (Envelope.open_snoc edit b).2 (Envelope.open_snoc_started hb), hi⟩
    · intro hn
      exact absurd (session.symm.trans hn) (by simp)
    · rw [sent, last, Envelope.saysDisabled_snoc (by simp [Envelope.isMode, hpop]),
        Envelope.saysDisabled_snoc (by simp [Envelope.isMode, hb]), begun.mode_eq (by decide)]
      exact k.mode
    · intro hr j hj
      rw [sent] at hj
      rcases List.mem_append.1 hj with hj | hj
      · exact k.unready ((begun.ready_eq (by decide)).symm.trans hr) j hj
      · simp only [List.mem_cons, List.not_mem_nil, or_false] at hj
        rcases hj with rfl | rfl
        · simp [hb]
        · simp [hpop]
  · rw [heq]
    exact k.of_only (unmarked_only e n fault) (by decide)

/-- A text is told while its edit is open, with the identity that the begin was told with. -/
theorem speaks_input (n : NodeId) (k : Speaks e) : Speaks (e.input n) := by
  rcases input_cases e n with h | ⟨s, hs, -, h⟩
  · rwa [h]
  · obtain ⟨b, hb, hi⟩ := k.begun s hs
    let update : TextUpdate := ⟨e.page.document.textContent n, s.identity⟩
    have told := tell_only e .text (n := .textUpdated update) rfl
    have follows : Follows e.page.outbox.sent (.ofNotice (.textUpdated update) e.config.editorTag) [] :=
      ⟨b, _, hb, hi, Envelope.metadata_textUpdated update _⟩
    have topic : (Envelope.ofNotice (.textUpdated update) e.config.editorTag).topic? ≠ some .ready := by
      rw [Envelope.topic?_ofNotice]
      simp [Notice.topic]
    rw [h]
    exact k.say (told.failing_eq (by decide)) (tell_sent k.channel _) follows rfl rfl
      (told.session_eq (by decide)) (told.mode_eq (by decide))
      fun hr => ⟨(told.ready_eq (by decide)).symm.trans hr, topic⟩

/-- The mode is told when it is entered, the end of all editing only if there was some. -/
theorem speaks_enter {m : EditMode} (hm : m = .disabled → e.state.mode ≠ .disabled) (k : Speaks e) :
    Speaks (e.enter m) := by
  have entered := enter_only e m
  let within : HeadlessEditor := { e with state := { e.state with mode := m } }
  have channel : within.page.outbox.failing = false := k.channel
  have sent : (e.enter m).page.outbox.sent = e.page.outbox.sent ++
      [.ofNotice (.modeChanged m) e.config.editorTag] := tell_sent channel (.modeChanged m)
  have topic := Envelope.topic?_ofNotice (.modeChanged m) e.config.editorTag
  refine ⟨(entered.failing_eq (by simp)).trans k.channel, ?_, ?_, ?_, ?_, ?_⟩
  · rw [sent]
    refine k.spoken.snoc ?_
    unfold Follows
    rw [topic]
    cases m with
    -- that it was not told before is where the mode before comes in
    | disabled => exact fun h => hm rfl (k.mode.1 h)
    | enabled => trivial
    | saving => trivial
  · intro s hs
    obtain ⟨b, hb, hi⟩ := k.begun s ((entered.session_eq (by simp)).symm.trans hs)
    rw [sent]
    exact ⟨b, (Envelope.open_snoc (by simp [Envelope.isEdit, topic, Notice.topic]) b).2 hb, hi⟩
  · intro hs b
    rw [sent, Envelope.open_snoc (by simp [Envelope.isEdit, topic, Notice.topic])]
    exact k.idle ((entered.session_eq (by simp)).symm.trans hs) b
  · rw [sent, Envelope.saysDisabled_snoc_mode topic, mode_enter]
  · intro hr j hj
    rw [sent] at hj
    rcases List.mem_append.1 hj with hj | hj
    · exact k.unready ((entered.ready_eq (by simp)).symm.trans hr) j hj
    · rw [List.mem_singleton.1 hj, topic]
      simp [Notice.topic]

/-- The host, which asked for it, is not told that the editor holds still. -/
theorem speaks_save (hm : e.state.mode = .enabled) (k : Speaks e) :
    Speaks { e with state := { e.state with mode := .saving } } := by
  refine ⟨k.channel, k.spoken, k.begun, k.idle, ?_, k.unready⟩
  have told := k.mode
  rw [hm] at told
  exact told.trans ⟨fun h => absurd h (by decide),
    fun h => absurd (show EditMode.saving = .disabled from h) (by decide)⟩

/-- Every piece of the operations goes on with the stream as a host expects it. -/
theorem speaks_kept : Kept Speaks where
  aside h k := k.of_only h (by decide)
  tell := speaks_tell
  announce := speaks_announce
  releaseSelection k := k.of_only (releaseSelection_only _) (by decide)
  select _ k := k.of_only (select_only _ _) (by decide)
  dropped _ _ hp k := k.of_only (dropped_only hp) (by decide)
  endEdit := speaks_endEdit
  beginEdit := speaks_beginEdit
  input := speaks_input
  enable := speaks_enter fun h => absurd h (by decide)
  disable hm := speaks_enter fun _ => hm
  save := speaks_save

/-- An editor goes on to speak well after every step, while the channel works. -/
theorem speaks_step {x : Step} (hx : x ≠ .channel true) (k : Speaks e) : Speaks (e.step x) := by
  cases x with
  | page x => exact k.of_only (edit_only e x) (by simp)
  | clock time => exact k.of_only (clock_only e time) (by decide)
  | channel failing =>
    cases failing with
    | false => exact ⟨rfl, k.spoken, k.begun, k.idle, k.mode, k.unready⟩
    | true => exact absurd rfl hx
  | operate o => exact speaks_kept.operate o k

/-! ## The elements that there are to edit -/

/-- Whether a step is the news of changed elements and finds some to edit. -/
def finds (e : HeadlessEditor) : Step → Bool
  | .operate .contentChanged => !e.page.document.identified.isEmpty
  | _ => false

/-- The message on the elements that there are to edit, sent by the first step of a run that finds some. -/
def foundFirst (e : HeadlessEditor) : List Step → List Envelope
  | [] => []
  | x :: xs =>
    if e.finds x then [.ofNotice (.ready e.readiness) e.config.editorTag]
    else (e.step x).foundFirst xs

/-- The host does not hear of the elements in a step that finds none, or once it knows. -/
theorem ready_step {x : Step} (h : e.finds x = false ∨ e.state.ready = true) :
    (e.step x).state.ready = e.state.ready ∧ (e.step x).told .ready = e.told .ready := by
  cases x with
  | page x => exact ⟨(edit_only e x).ready_eq (by simp), (edit_only e x).told_eq (by simp)⟩
  | clock time => exact ⟨rfl, rfl⟩
  | channel failing => exact ⟨rfl, rfl⟩
  | operate o =>
    by_cases ho : o = .contentChanged
    · subst ho
      have pruned := pruned_only e
      rw [show e.step (.operate .contentChanged) = e.contentChanged from rfl, contentChanged_eq]
      rcases announce_cases e.pruned with ⟨-, heq⟩ | ⟨-, heq⟩ | ⟨hr, hn, -⟩
      · rw [heq]
        exact ⟨pruned.ready_eq (by decide), pruned.told_eq (by decide)⟩
      · have logged := pruned.trans (log_only e.pruned .trace "No identified elements yet" [])
        rw [heq]
        exact ⟨logged.ready_eq (by decide), logged.told_eq (by decide)⟩
      · rw [pruned.ready_eq (by decide)] at hr
        rw [page_pruned] at hn
        rcases h with h | h
        · exact absurd h (by simpa [finds] using hn)
        · exact absurd (hr.symm.trans h) (by decide)
    · have operated := operate_only e ho
      exact ⟨operated.ready_eq (by decide), operated.told_eq (by decide)⟩

/-- A host that does not know hears of the elements in a step that finds some. -/
theorem ready_step_finds {x : Step} (h : e.finds x = true) (hf : e.page.outbox.failing = false)
    (hr : e.state.ready = false) : (e.step x).state.ready = true ∧
      (e.step x).told .ready = e.told .ready ++ [.ofNotice (.ready e.readiness) e.config.editorTag] := by
  unfold finds at h
  split at h
  · have pruned := pruned_only e
    have found : e.page.document.identified ≠ [] := by simpa using h
    have unready : e.pruned.state.ready = false := (pruned.ready_eq (by decide)).trans hr
    have readied := pruned.trans (readied_only e.pruned)
    rw [show e.step (.operate .contentChanged) = e.contentChanged from rfl, contentChanged_eq]
    rcases announce_cases e.pruned with ⟨hr', -⟩ | ⟨hn, -⟩ | ⟨-, -, heq⟩
    · exact absurd (unready.symm.trans hr') (by decide)
    · rw [page_pruned] at hn
      exact absurd hn found
    · have told := told_tell ((readied.failing_eq (by decide)).trans hf) (.ready e.pruned.readiness)
      have count : e.pruned.readiness = e.readiness := by
        unfold readiness
        rw [page_pruned]
      have earlier : e.pruned.readied.told .ready = e.told .ready := readied.told_eq (by decide)
      have known : (e.pruned.readied.tell (.ready e.pruned.readiness)).state.ready = true := by
        rw [tell_state]
        rfl
      rw [heq]
      refine ⟨known, told.trans ?_⟩
      rw [readied.config, count]
      exact congrArg (· ++ _) earlier
  · exact absurd h (by decide)

/-- In a run the host hears of the elements once, when some are found first. -/
theorem told_ready_run {xs : List Step} (hxs : .channel true ∉ xs)
    (hf : e.page.outbox.failing = false) (hr : e.state.ready = false) :
    (e.run xs).told .ready = e.told .ready ++ e.foundFirst xs := by
  induction xs generalizing e with
  | nil => simp [run, foundFirst]
  | cons x xs ih =>
    have hx : x ≠ .channel true := fun h => hxs (by simp [h])
    have rest : .channel true ∉ xs := fun h => hxs (by simp [h])
    rw [run_cons, foundFirst]
    by_cases h : e.finds x = true
    · obtain ⟨ready, told⟩ := ready_step_finds h hf hr
      have known : ((e.step x).run xs).state.ready = true ∧
          ((e.step x).run xs).told .ready = (e.step x).told .ready :=
        run_induction (P := fun e' => e'.state.ready = true ∧ e'.told .ready = (e.step x).told .ready)
          ⟨ready, rfl⟩ fun y _ e' ⟨hr', ht'⟩ => by
            obtain ⟨same, told'⟩ := ready_step (x := y) (.inr hr')
            exact ⟨same.trans hr', told'.trans ht'⟩
      rw [if_pos h, known.2, told]
    · obtain ⟨same, told⟩ := ready_step (x := x) (.inl (by simpa using h))
      rw [if_neg h, ih rest (notFailing_step hx hf) (same.trans hr), told]

/-! ## Runs -/

/-- An editor that has said nothing speaks well. -/
theorem speaks_new (d : Document) (config : EditorConfig) (time : String) :
    Speaks (new d config time) where
  channel := rfl
  spoken := Envelope.wellSpoken_nil
  begun := by simp [new]
  idle _ b hb := by simp [new, Open, Envelope.lastEdit?] at hb
  mode := by simp [new, SaysDisabled, Envelope.lastMode?]
  unready _ k hk := by simp [new] at hk

/-- After every run in which no message failed the host has heard a stream that it can follow, and of the
elements that there are to edit once, when some were found first. It knows whether a text is edited and
whether the editor is disabled. -/
theorem wellSpoken_run (d : Document) (config : EditorConfig) (time : String) {xs : List Step}
    (hxs : .channel true ∉ xs) :
    let e := (new d config time).run xs
    WellSpoken e.page.outbox.sent ∧ e.told .ready = (new d config time).foundFirst xs ∧
      ((∃ b, Open e.page.outbox.sent b) ↔ e.state.session.isSome) ∧
      (SaysDisabled e.page.outbox.sent ↔ e.state.mode = .disabled) := by
  intro e
  have k : Speaks e := run_induction (speaks_new d config time) fun x hin e k =>
    speaks_step (fun h => hxs (h ▸ hin)) k
  have ready : e.told .ready = [] ++ (new d config time).foundFirst xs := told_ready_run hxs rfl rfl
  refine ⟨k.spoken, ready, ?_, k.mode⟩
  cases hs : e.state.session with
  | none => exact ⟨fun ⟨b, hb⟩ => absurd hb (k.idle hs b), fun h => absurd h (by decide)⟩
  | some s =>
    obtain ⟨b, hb, -⟩ := k.begun s hs
    exact ⟨fun _ => rfl, fun _ => ⟨b, hb⟩⟩

/-- The elements are found on the second look; a text is edited, written and kept, and another edit begins. -/
theorem wellSpoken_run_found :
    let xs : List Step := [.operate .contentChanged, .operate (.setMode .enabled),
      .page (.appendIdentified 0 "p" "src/App.tsx:1:1"), .page (.appendText 1 "Hello"),
      .operate .contentChanged, .operate (.event (.click 1)), .page (.setTextContent 1 "Bye"),
      .operate (.event (.input 1)), .operate (.event (.blur 1)), .operate (.startEdit 1)]
    let e := (new .empty {} "").run xs
    WellSpoken e.page.outbox.sent ∧
      e.told .ready = [.ofNotice (.ready ⟨1, none, ""⟩) e.config.editorTag] ∧
      (∃ b, Open e.page.outbox.sent b) ∧ ¬ SaysDisabled e.page.outbox.sent := by
  intro xs e
  have mended : .channel true ∉ xs := by simp [xs]
  obtain ⟨spoken, ready, edited, disabled⟩ := wellSpoken_run .empty {} "" mended
  have mode : e.state.mode = .enabled := rfl
  refine ⟨spoken, ready, edited.2 rfl, ?_⟩
  intro h
  exact absurd (mode.symm.trans (disabled.1 h)) (by decide)

end

end Editor

end InPlace

import InPlace.Proofs.Editing.Run
import InPlace.Proofs.Headless.Text
import Mathlib.Data.List.Induction

/-!
# Sessions

What becomes of the editing of a text. It goes on through a step, or the step ends it and reports it to the
host, once, with the text that the element has after the step. The text before was read when the session was
opened, and a session that is not to be kept leaves that text behind.

Main statements: `step_edit` (what one step does) and `edit_run` (what is known of a session after a run).
-/

namespace InPlace

open Headless (Document Part PageEdit)

/-- Whether a step that ends the editing of a text keeps what the user wrote. -/
def Step.commits : Step → Bool
  | .operate (.event (.click _)) | .operate (.event (.blur _)) => true
  | .operate (.endEdit commit) => commit
  | _ => false

/-- The text that stays is the current one or the one before. -/
theorem Session.outcome_text {N : Type} (s : Session N) (text : String) (commit : Bool) :
    (s.outcome text commit).text = if commit then text else s.openingText := by
  unfold Session.outcome
  cases commit with
  | false => rfl
  | true =>
    by_cases h : text = s.openingText
    · simp [h]
    · simp [h]

namespace Editor

/-! ## Ends and begins -/

/-- Whether a change to a mode ends the editing of a text. -/
def modeEnds (e : HeadlessEditor) (m : EditMode) : Prop :=
  (e.state.mode = .enabled ∧ m = .saving) ∨ (e.state.mode ≠ .disabled ∧ m = .disabled)

/-- Whether a command ends the editing of a text. -/
def commandEnds (e : HeadlessEditor) (s : Session NodeId) : Command → Prop
  | .setMode m => e.modeEnds m
  | .deleteElement => e.state.selected? = some s.element
  | .clearSelection => True
  | _ => False

/-- Whether an event ends the editing of a text. -/
def eventEnds (e : HeadlessEditor) (s : Session NodeId) : PageEvent NodeId → Prop
  | .click target => e.heeds target = true
  | .blur element => element = s.element
  | .editKeyDown element key => key = "Escape" ∧ element = s.element
  | _ => False

/-- Whether an operation ends the editing of a text. -/
def operationEnds (e : HeadlessEditor) (s : Session NodeId) : Operation → Prop
  | .contentChanged => False
  | .receive data fromParent =>
    ∃ c, (TrustPolicy.mk e.config.hostTag).accept data fromParent = .ok c ∧ e.commandEnds s c
  | .command c => e.commandEnds s c
  | .setMode m => e.modeEnds m
  | .event ev => e.eventEnds s ev
  | .startEdit n => n ≠ s.element
  | .endEdit _ => True

/-- Whether a step ends the editing of a text. -/
def ends (e : HeadlessEditor) (s : Session NodeId) : Step → Prop
  | .operate o => e.operationEnds s o
  | _ => False

/-- No editing began and none ended. -/
structure EditGoesOn (e e' : HeadlessEditor) : Prop where
  session : e'.state.session = e.state.session
  started : e'.told .editStarted = e.told .editStarted
  ended : e'.told .editEnded = e.told .editEnded

/-- A session was opened and the host told, once. Its opening text is what its element has in it. -/
structure EditBegins (s : Session NodeId) (e e' : HeadlessEditor) : Prop where
  session : e'.state.session = some s
  told : ∃ d, e'.told .editStarted =
    e.told .editStarted ++ [.ofNotice (.editStarted d) e.config.editorTag]
  text : e'.page.document.textContent s.element = s.openingText

/-- A session was ended and the host told, once. The report says what is in the element now, what was in it
before, and whether that was changed; a text that is not to be kept is gone. -/
structure EditEnds (commit : Bool) (s : Session NodeId) (e e' : HeadlessEditor) : Prop where
  told : ∃ o : EditOutcome,
    e'.told .editEnded = e.told .editEnded ++ [.ofNotice (.editEnded o) e.config.editorTag] ∧
      o.openingText = s.openingText ∧
      o.text = e'.page.document.textContent s.element ∧
      (o.changed = true ↔ commit = true ∧ o.text ≠ s.openingText) ∧
      o.state = if o.changed then .saved else .cancelled
  restored : commit = false → e'.page.document.textContent s.element = s.openingText

/-- What follows on the end of an editing: nothing, or a new one. -/
def GoesFrom (e e' : HeadlessEditor) : Prop :=
  (e'.state.session = none ∧ e'.told .editStarted = e.told .editStarted) ∨ ∃ s, EditBegins s e e'

/-- What an operation does to the editing of a text, where `ends` says which sessions it ends. -/
structure EditStep (commit : Bool) (ends : Session NodeId → Prop) (e e' : HeadlessEditor) : Prop where
  goesOn : ∀ s, e.state.session = some s → ¬ ends s → EditGoesOn e e'
  ends : ∀ s, e.state.session = some s → ends s → EditEnds commit s e e' ∧ GoesFrom e e'
  closed : e.state.session = none → e'.told .editEnded = e.told .editEnded ∧ GoesFrom e e'

section

variable {as bs : List Aspect} {e e₁ e₂ e' : HeadlessEditor} {s : Session NodeId}

theorem EditGoesOn.refl (e : HeadlessEditor) : EditGoesOn e e :=
  ⟨rfl, rfl, rfl⟩

theorem EditGoesOn.trans (h : EditGoesOn e e₁) (h' : EditGoesOn e₁ e') : EditGoesOn e e' :=
  ⟨h'.session.trans h.session, h'.started.trans h.started, h'.ended.trans h.ended⟩

/-- The aspects that say what is edited. -/
abbrev editing : List Aspect :=
  [.session, .told .editStarted, .told .editEnded]

theorem EditGoesOn.of_only (h : Only as e e') (ha : ∀ a ∈ editing, a ∉ as) : EditGoesOn e e' :=
  ⟨h.session_eq (ha _ (by decide)), h.told_eq (ha _ (by decide)), h.told_eq (ha _ (by decide))⟩

/-- What ends no session lets it go on. -/
theorem EditStep.of_only {commit : Bool} {ends : Session NodeId → Prop} (h : Only as e e')
    (ha : ∀ a ∈ editing, a ∉ as) (hends : ∀ s, e.state.session = some s → ¬ ends s) :
    EditStep commit ends e e' where
  goesOn _ _ _ := .of_only h ha
  ends s hs he := absurd he (hends s hs)
  closed hn := by
    obtain ⟨session, started, ended⟩ := EditGoesOn.of_only h ha
    exact ⟨ended, .inl ⟨session.trans hn, started⟩⟩

/-! ## The end of an editing -/

/-- The end of an editing is told, once. -/
theorem told_endEdit (h : e.state.session = some s) (hf : e.page.outbox.failing = false)
    (commit : Bool) :
    (e.endEdit commit).told .editEnded = e.told .editEnded ++
      [.ofNotice (.editEnded (s.outcome (e.page.document.textContent s.element) commit))
        e.config.editorTag] := by
  have topic := Notice.topic_editEnded_outcome s (e.page.document.textContent s.element) commit
  unfold told
  rw [sent_endEdit h hf, List.filter_append]
  simp [Envelope.topic?_ofNotice, topic]

/-- After the end of an editing the element has the text that is kept. -/
theorem textContent_endEdit (h : e.state.session = some s)
    (hel : (e.page.document.element? s.element).isSome) (commit : Bool) :
    (e.endEdit commit).page.document.textContent s.element =
      if commit then e.page.document.textContent s.element else s.openingText := by
  have after := (unmarkEdited_only (e.settleText s commit) s.element).trans
    (reportEdit_only _ s (e.page.document.textContent s.element) commit)
  rw [endEdit_of_some h, Document.textContent_of_sameTree (after.sameTree (by decide))]
  cases commit with
  | true => rfl
  | false => exact (Document.onlyText_setTextContent hel s.openingText).textContent

/-- An editing that is given up leaves the text before, and nothing else, in the element. -/
theorem onlyText_endEdit (h : e.state.session = some s)
    (hel : (e.page.document.element? s.element).isSome) :
    (e.endEdit false).page.document.OnlyText s.element s.openingText := by
  have after := (unmarkEdited_only (e.settleText s false) s.element).trans
    (reportEdit_only _ s (e.page.document.textContent s.element) false)
  have restored : (e.settleText s false).page.document.OnlyText s.element s.openingText :=
    Document.onlyText_setTextContent hel s.openingText
  rw [endEdit_of_some h]
  exact restored.of_sameTree (after.sameTree (by decide))

/-- An operation that ends the editing, with what comes before and after the end. -/
theorem EditEnds.of_endEdit {commit : Bool} (h : e.state.session = some s)
    (hel : (e.page.document.element? s.element).isSome) (hf : e.page.outbox.failing = false)
    (pre : Only as e e₁) (hpre : ∀ a ∈ .channel :: .page .tree :: editing, a ∉ as)
    (post : Only bs (e₁.endEdit commit) e') (hpost : .told .editEnded ∉ bs)
    (htext : e'.page.document.textContent s.element =
      (e₁.endEdit commit).page.document.textContent s.element) : EditEnds commit s e e' := by
  have h₁ : e₁.state.session = some s := (pre.session_eq (hpre _ (by decide))).trans h
  have same : ∀ n, e₁.page.document.textContent n = e.page.document.textContent n :=
    Document.textContent_of_sameTree (pre.sameTree (hpre _ (by decide)))
  -- the report is computed from the text before it is put back, which `pre` has not changed
  have text := textContent_endEdit h₁ (pre.elements _ hel) commit
  rw [same] at text
  have told := told_endEdit h₁ ((pre.failing_eq (hpre _ (by decide))).trans hf) commit
  rw [same, pre.told_eq (hpre _ (by decide)), pre.config] at told
  refine ⟨⟨s.outcome (e.page.document.textContent s.element) commit, ?_, rfl, ?_, ?_, rfl⟩, ?_⟩
  · rw [post.told_eq hpost, told]
  · rw [htext, text]
    exact Session.outcome_text s _ commit
  · rw [Session.outcome_text]
    cases commit with
    | true => exact Session.outcome_changed_iff
    | false => simp [Session.outcome]
  · rintro rfl
    rw [htext, text]
    rfl

/-- An operation that ends every editing, with what comes before and after the end. -/
theorem EditStep.of_endEdit {commit : Bool} {ends : Session NodeId → Prop}
    (hel : ∀ s, e.state.session = some s → (e.page.document.element? s.element).isSome)
    (hf : e.page.outbox.failing = false) (hends : ∀ s, e.state.session = some s → ends s)
    (pre : Only as e e₁) (hpre : ∀ a ∈ .channel :: .page .tree :: editing, a ∉ as)
    (post : Only bs (e₁.endEdit commit) e') (hpost : ∀ a ∈ .page .tree :: editing, a ∉ bs) :
    EditStep commit ends e e' := by
  have ended := endEdit_only e₁ commit
  have onward : GoesFrom e e' := by
    refine .inl ⟨(post.session_eq (hpost _ (by decide))).trans (session_endEdit e₁ commit), ?_⟩
    rw [post.told_eq (hpost _ (by decide)), ended.told_eq (by decide),
      pre.told_eq (hpre _ (by decide))]
  refine ⟨fun s hs he => absurd (hends s hs) he, fun s hs _ => ⟨?_, onward⟩, fun hn => ⟨?_, onward⟩⟩
  · exact .of_endEdit hs (hel s hs) hf pre hpre post (hpost _ (by decide))
      (Document.textContent_of_sameTree (post.sameTree (hpost _ (by decide))) _)
  · have hn₁ : e₁.state.session = none := (pre.session_eq (hpre _ (by decide))).trans hn
    rw [post.told_eq (hpost _ (by decide)), endEdit_of_none hn₁, pre.told_eq (hpre _ (by decide))]

/-! ## The begin of an editing -/

/-- An editing that begins is told, once. -/
theorem told_openEdit (hf : e.page.outbox.failing = false) (n : NodeId) (text : String)
    (i : Option Identity) :
    ∃ d, (e.openEdit n text i).told .editStarted =
      e.told .editStarted ++ [.ofNotice (.editStarted d) e.config.editorTag] := by
  obtain ⟨d, p, -, hp, sent⟩ := sent_openEdit hf n text i
  refine ⟨d, ?_⟩
  unfold told
  rw [sent, List.filter_append]
  simp [Envelope.topic?_ofNotice, Notice.topic, hp]

/-- An editing that begins starts with the text that is there. -/
theorem goesFrom_beginEdit (h : e.state.session = none) (hf : e.page.outbox.failing = false)
    (n : NodeId) : GoesFrom e (e.beginEdit n) := by
  have begun := beginEdit_only e n
  rcases beginEdit_cases e n with ⟨page, hp, heq⟩ | ⟨fault, heq⟩
  · have marked := marked_only hp
    obtain ⟨d, told⟩ := told_openEdit ((marked.failing_eq (by decide)).trans hf) n
      (e.page.document.textContent n) (e.metadata n).1.identity
    rw [marked.told_eq (by decide), marked.config, ← heq] at told
    refine .inr ⟨⟨n, e.page.document.textContent n, (e.metadata n).1.identity⟩, ?_, ⟨d, told⟩, ?_⟩
    · rw [heq]
      exact session_openEdit _ n _ _
    · exact Document.textContent_of_sameTree (begun.sameTree (by decide)) n
  · have unmarked := unmarked_only e n fault
    rw [heq]
    exact .inl ⟨(unmarked.session_eq (by decide)).trans h, unmarked.told_eq (by decide)⟩

/-- An operation that ends every editing and then begins one. -/
theorem EditStep.beginEdit {commit : Bool} {ends : Session NodeId → Prop} (h : EditStep commit ends e e')
    (hends : ∀ s, e.state.session = some s → ends s) (hf : e'.page.outbox.failing = false)
    (hn : e'.state.session = none) (hc : e'.config = e.config) (n : NodeId) :
    EditStep commit ends e (e'.beginEdit n) := by
  have begun := beginEdit_only e' n
  have onward : GoesFrom e e' → GoesFrom e (e'.beginEdit n) := by
    intro g
    have started : e'.told .editStarted = e.told .editStarted := by
      rcases g with ⟨-, ht⟩ | ⟨s, b⟩
      · exact ht
      · exact absurd (hn.symm.trans b.session) (by simp)
    rcases goesFrom_beginEdit hn hf n with ⟨hs, ht⟩ | ⟨s, hs, ⟨d, ht⟩, htext⟩
    · exact .inl ⟨hs, ht.trans started⟩
    · rw [started, hc] at ht
      exact .inr ⟨s, hs, ⟨d, ht⟩, htext⟩
  refine ⟨fun s hs he => absurd (hends s hs) he, ?_, ?_⟩
  · intro s hs he
    obtain ⟨⟨⟨o, told, opening, text, changed, state⟩, restored⟩, g⟩ := h.ends s hs he
    have same : (e'.beginEdit n).page.document.textContent s.element =
        e'.page.document.textContent s.element :=
      Document.textContent_of_sameTree (begun.sameTree (by decide)) _
    refine ⟨⟨⟨o, ?_, opening, ?_, changed, state⟩, ?_⟩, onward g⟩
    · rw [begun.told_eq (by decide), told]
    · rw [same, text]
    · intro hc
      rw [same, restored hc]
  · intro hs
    obtain ⟨ended, g⟩ := h.closed hs
    exact ⟨(begun.told_eq (by decide)).trans ended, onward g⟩

/-- What comes after an operation, if it neither touches the texts nor what is edited. -/
theorem EditStep.andThen {commit : Bool} {ends : Session NodeId → Prop} (h : EditStep commit ends e e')
    {e'' : HeadlessEditor} (post : Only as e' e'') (ha : ∀ a ∈ .page .tree :: editing, a ∉ as) :
    EditStep commit ends e e'' := by
  have on : EditGoesOn e' e'' := .of_only post fun a hin => ha a (by simp [hin])
  -- what comes after changes no text, so what was said of the text at the end of the edit still holds
  have same : ∀ n, e''.page.document.textContent n = e'.page.document.textContent n :=
    Document.textContent_of_sameTree (post.sameTree (ha _ (by decide)))
  have onward : GoesFrom e e' → GoesFrom e e'' := by
    rintro (⟨hs, ht⟩ | ⟨s, hs, ⟨d, ht⟩, htext⟩)
    · exact .inl ⟨on.session.trans hs, on.started.trans ht⟩
    · exact .inr ⟨s, on.session.trans hs, ⟨d, on.started.trans ht⟩, (same _).trans htext⟩
  refine ⟨fun s hs he => (h.goesOn s hs he).trans on, ?_, ?_⟩
  · intro s hs he
    obtain ⟨⟨⟨o, told, opening, text, changed, state⟩, restored⟩, g⟩ := h.ends s hs he
    exact ⟨⟨⟨o, on.ended.trans told, opening, text.trans (same _).symm, changed, state⟩,
      fun hc => (same _).trans (restored hc)⟩, onward g⟩
  · intro hs
    obtain ⟨ended, g⟩ := h.closed hs
    exact ⟨on.ended.trans ended, onward g⟩

/-- What is edited is an element. -/
def EditsElement (e : HeadlessEditor) : Prop :=
  ∀ s, e.state.session = some s → (e.page.document.element? s.element).isSome

theorem EditsElement.of_only (h : Only as e e') (ha : .session ∉ as) (hel : EditsElement e) :
    EditsElement e' := by
  intro s hs
  exact h.elements _ (hel s ((h.session_eq ha).symm.trans hs))

theorem editsElement_of_none (h : e.state.session = none) : EditsElement e := by
  intro s hs
  rw [h] at hs
  simp at hs

theorem editsElement_beginEdit (n : NodeId) (h : e.state.session = none) :
    EditsElement (e.beginEdit n) := by
  rcases beginEdit_cases e n with ⟨page, hp, heq⟩ | ⟨fault, heq⟩
  · have opened := openEdit_only (e.marked n page) n (e.page.document.textContent n)
      (e.metadata n).1.identity
    rw [heq]
    intro s hs
    rw [session_openEdit] at hs
    cases hs
    exact opened.elements n (element?_marked hp)
  · rw [heq]
    exact (editsElement_of_none h).of_only (unmarked_only e n fault) (by decide)

/-- What is edited is an element, whatever the editor does. -/
theorem editsElement_kept : Kept EditsElement where
  aside h := .of_only h (by decide)
  tell {e n} _ := .of_only (tell_only e n.topic rfl) (by simp)
  announce := .of_only (announce_only _) (by decide)
  releaseSelection := .of_only (releaseSelection_only _) (by decide)
  select _ := .of_only (select_only _ _) (by decide)
  dropped _ _ hp := .of_only (dropped_only hp) (by decide)
  endEdit commit _ := editsElement_of_none (session_endEdit _ commit)
  beginEdit n h _ := editsElement_beginEdit n h
  input n := .of_only (input_only _ n) (by decide)
  enable := .of_only (enter_only _ .enabled) (by decide)
  disable _ := .of_only (enter_only _ .disabled) (by decide)
  save _ := .of_only (mode_only _ .saving) (by decide)

/-! ## Operations -/

/-- What does nothing ends nothing. -/
theorem EditStep.refl {commit : Bool} {ends : Session NodeId → Prop}
    (hends : ∀ s, e.state.session = some s → ¬ ends s) : EditStep commit ends e e :=
  .of_only (.refl [] e) (by decide) hends

/-- An end and nothing else. -/
theorem editStep_endEdit (hel : EditsElement e) (hf : e.page.outbox.failing = false) (commit : Bool)
    {ends : Session NodeId → Prop} (hends : ∀ s, e.state.session = some s → ends s) :
    EditStep commit ends e (e.endEdit commit) :=
  .of_endEdit hel hf hends (.refl [] e) (by decide) (.refl [] _) (by decide)

/-- An end, then a begin. -/
theorem editStep_endEdit_beginEdit (hel : EditsElement e) (hf : e.page.outbox.failing = false)
    (commit : Bool) {ends : Session NodeId → Prop} (hends : ∀ s, e.state.session = some s → ends s)
    (post : Only as (e.endEdit commit) e') (ha : ∀ a ∈ .channel :: .page .tree :: editing, a ∉ as)
    (n : NodeId) : EditStep commit ends e (e'.beginEdit n) := by
  have ended := editStep_endEdit hel hf commit hends
  have through := (endEdit_only e commit).trans post
  refine (ended.andThen post fun a hin => ha a (by simp [hin])).beginEdit hends ?_ ?_ through.config n
  · rw [post.failing_eq (ha _ (by decide)), (endEdit_only e commit).failing_eq (by decide)]
    exact hf
  · exact (post.session_eq (ha _ (by decide))).trans (session_endEdit e commit)

/-- An edit that starts ends the one of another element. -/
theorem editStep_startEdit (hel : EditsElement e) (hf : e.page.outbox.failing = false) (n : NodeId) :
    EditStep false (fun s => n ≠ s.element) e (e.startEdit n) := by
  unfold startEdit
  split
  · rename_i hn
    refine .refl fun s hs hne => hne ?_
    rw [EditorState.editing?, hs] at hn
    exact (Option.some.inj hn).symm
  · rename_i hn
    have another : ∀ s, e.state.session = some s → n ≠ s.element := by
      intro s hs heq
      rw [EditorState.editing?, hs, heq] at hn
      exact hn rfl
    exact editStep_endEdit_beginEdit hel hf false another (.refl [] _) (by decide) n

/-- A click ends an edit exactly if it is heeded. -/
theorem editStep_click (hel : EditsElement e) (hf : e.page.outbox.failing = false)
    (target : NodeId) : EditStep true (fun _ => e.heeds target = true) e (e.click target).1 := by
  have ended : e.heeds target = true →
      EditStep true (fun _ => e.heeds target = true) e (e.endEdit true) :=
    fun hyes => editStep_endEdit hel hf true fun _ _ => hyes
  rcases click_cases e target with ⟨hno, heq⟩ | ⟨hyes, heq | ⟨n, -, heq⟩⟩
  · rw [heq]
    exact .refl fun s _ h => absurd (hno.symm.trans h) (by decide)
  · rw [heq]
    exact (ended hyes).andThen ((releaseSelection_only _).trans (tell_only _ .selection rfl)) (by decide)
  · rw [heq]
    rcases clickElement_cases (session_endEdit e true) n with hclick | hclick | hclick
    · rw [hclick]
      exact (ended hyes).andThen ((metadata_only _ n).trans (log_only _ _ _ _)) (by decide)
    · rw [hclick]
      exact (ended hyes).andThen (chosen_only _ n) (by decide)
    · rw [hclick]
      exact editStep_endEdit_beginEdit hel hf true (fun _ _ => hyes) (chosen_only _ n) (by decide) n

/-- An editing that is given up with the element that it is of leaves the text before in it. -/
theorem editEnds_dropped {n : NodeId} {page : Headless} (h : e.state.session = some s)
    (hn : s.element = n) (hel : EditsElement e) (hf : e.page.outbox.failing = false)
    (hp : Page.remove? (e.letGo n).page n = some page) :
    EditEnds false s e ((e.letGo n).dropped n page) := by
  subst hn
  have freed := letGo_of_editing (congrArg (Option.map Session.element) h)
  have dropped := dropped_only hp
  obtain ⟨-, removed⟩ := remove?_eq_some hp
  -- a text read off the tree could change with the tree; that the element holds it alone cannot
  have given := onlyText_endEdit h (hel s h)
  have away : page.document.OnlyText s.element s.openingText :=
    (given.of_sameTree (freed.sameTree (by decide))).remove? removed
  have after := ((log_only { e.letGo s.element with page } .debug "Deleted selected element" []).trans
    (removeAttribute_only _ s.element Overlay.selectedAttribute)).sameTree (by decide)
  have left : ((e.letGo s.element).dropped s.element page).page.document.OnlyText s.element
      s.openingText := away.of_sameTree after
  exact .of_endEdit h (hel s h) hf (.refl [] e) (by decide) (freed.trans dropped) (by decide)
    (left.textContent.trans given.textContent.symm)

/-- A deletion ends the editing of the element that it takes away. -/
theorem editStep_deleteElement (hel : EditsElement e) (hf : e.page.outbox.failing = false)
    {n : NodeId} (hn : e.state.selected? = some n) :
    EditStep false (fun s => e.state.selected? = some s.element) e (e.deleteElement n).1 := by
  by_cases hedit : e.state.editing? = some n
  · have freed := letGo_of_editing hedit
    obtain ⟨s, hs, hsn⟩ := Option.map_eq_some_iff.1 hedit
    have selected : ∀ t, e.state.session = some t → e.state.selected? = some t.element := by
      intro t ht
      cases hs.symm.trans ht
      rw [hn, hsn]
    rcases deleteElement_cases e n with heq | ⟨page, hp, heq⟩
    · rw [heq]
      exact .of_endEdit hel hf selected (.refl [] e) (by decide)
        (freed.trans (log_only _ .warn "Selected element has no parent" [])) (by decide)
    · rw [heq]
      have through := ((endEdit_only e false).trans freed).trans (dropped_only hp)
      have idle : ((e.letGo n).dropped n page).state.session = none :=
        ((freed.trans (dropped_only hp)).session_eq (by decide)).trans (session_endEdit e false)
      refine ⟨fun t ht hne => absurd (selected t ht) hne, fun t ht _ => ⟨?_, .inl ⟨idle, ?_⟩⟩,
        fun hnone => absurd (hs.symm.trans hnone) (by simp)⟩
      · cases hs.symm.trans ht
        exact editEnds_dropped hs hsn hel hf hp
      · exact through.told_eq (by decide)
  · have other : ∀ s, e.state.session = some s → ¬ e.state.selected? = some s.element := by
      intro s hs hsel
      rw [hn] at hsel
      exact hedit ((congrArg (Option.map Session.element) hs).trans hsel.symm)
    have freed := letGo_of_not_editing hedit
    rcases deleteElement_cases e n with heq | ⟨page, hp, heq⟩
    · rw [heq]
      exact .of_only (freed.trans (log_only _ _ _ _)) (by decide) other
    · rw [heq]
      exact .of_only (freed.trans (dropped_only hp)) (by decide) other

/-- A change of mode ends an edit exactly if it leads out of editing. -/
theorem editStep_setMode (hel : EditsElement e) (hf : e.page.outbox.failing = false) (m : EditMode) :
    EditStep false (fun _ => e.modeEnds m) e (e.setMode m).1 := by
  obtain ⟨e', level, message, fields, heq, hcases⟩ := setMode_cases e m
  rw [heq]
  refine EditStep.andThen ?_ (log_only e' level message fields) (by decide)
  -- two ways end an edit, two do not, and the fifth case changes nothing
  rcases hcases with ⟨hm, rfl, rfl⟩ | ⟨hm, rfl, rfl⟩ | ⟨hm, rfl, rfl⟩ | ⟨hm, rfl, rfl⟩ | ⟨hm, rfl⟩
  · exact .of_only (enable_only e) (by decide) fun _ _ => by simp [modeEnds, hm]
  · exact .of_only (leaveSaving_only e) (by decide) fun _ _ => by simp [modeEnds, hm]
  · have said := setBodyAttribute_only e Overlay.savingAttribute (some "true")
    have released := (releaseSelection_only
      ((e.setBodyAttribute Overlay.savingAttribute (some "true")).endEdit false)).trans
        (clearHover_only _ false)
    exact .of_endEdit hel hf (fun _ _ => .inl ⟨hm, rfl⟩) said (by decide)
      (released.trans (mode_only _ .saving)) (by decide)
  · have hushed := (hush_only (e.endEdit false)).trans (releaseSelection_only _)
    have stripped := (hushed.trans (clearHover_only _ false)).trans (strip_only _)
    rw [disable_eq]
    exact .of_endEdit hel hf (fun _ _ => .inr ⟨hm, rfl⟩) (.refl [] e) (by decide)
      (stripped.trans (enter_only _ .disabled)) (by decide)
  · apply EditStep.refl
    intro _ _
    rcases hm with rfl | ⟨hm, rfl⟩
    · rintro (⟨h1, h2⟩ | ⟨h1, h2⟩)
      · exact absurd (h1.symm.trans h2) (by decide)
      · exact h1 h2
    · simp [modeEnds, hm]

/-- A command ends an edit exactly if it is one of those that do. -/
theorem editStep_handleCommand (hel : EditsElement e) (hf : e.page.outbox.failing = false)
    (c : Command) : EditStep false (fun s => e.commandEnds s c) e (e.handleCommand c).1 := by
  have logged : ∀ {ends : Session NodeId → Prop} level message fields,
      (∀ s, e.state.session = some s → ¬ ends s) →
        EditStep false ends e (e.log level message fields) :=
    fun _ _ _ hends => .of_only (log_only e _ _ _) (by decide) hends
  cases c with
  | setMode m => exact editStep_setMode hel hf m
  | updateText text =>
    refine withSelected_induction (P := EditStep false _ e) _ (fun _ _ _ _ => logged _ _ _ ?_)
      fun n _ => .of_only (updateText_only e n text) (by decide) ?_ <;> exact fun _ _ h => h
  | updateStyles styles =>
    refine withSelected_induction (P := EditStep false _ e) _ (fun _ _ _ _ => logged _ _ _ ?_)
      fun n _ => .of_only (updateStyles_only e n styles) (by decide) ?_ <;> exact fun _ _ h => h
  | updateClasses changes =>
    refine withSelected_induction (P := EditStep false _ e) _ (fun _ _ _ _ => logged _ _ _ ?_)
      fun n _ => .of_only (updateClasses_only e n changes) (by decide) ?_ <;> exact fun _ _ h => h
  | deleteElement =>
    refine withSelected_induction (P := EditStep false _ e) _ (fun hnone _ _ _ => logged _ _ _ ?_)
      fun n hn => editStep_deleteElement hel hf hn
    intro s _ hsel
    exact absurd (hnone.symm.trans hsel) (by simp)
  | clearSelection =>
    exact .of_endEdit hel hf (fun _ _ => trivial) (.refl [] e) (by decide)
      ((releaseSelection_only _).trans (tell_only _ .cleared rfl)) (by decide)

/-- An event ends an edit exactly if it is one of those that do. -/
theorem editStep_handleEvent (hel : EditsElement e) (hf : e.page.outbox.failing = false)
    (ev : PageEvent NodeId) :
    EditStep (Step.operate (.event ev)).commits (fun s => e.eventEnds s ev) e (e.handleEvent ev).1 := by
  have never : ∀ s, e.state.session = some s → ¬ False := fun _ _ h => h
  cases ev with
  | click target => exact editStep_click hel hf target
  | submit target => exact .refl never
  | keyDown key => exact .of_only (keyDown_only e key) (by decide) never
  | pointerOver target => exact .of_only (pointerOver_only e target) (by decide) never
  | scroll => exact .of_only (clearHover_only e true) (by decide) never
  | input element => exact .of_only (input_only e element) (by decide) never
  | blur element =>
    rw [handleEvent_blur]
    split
    · rename_i hedit
      refine editStep_endEdit hel hf true ?_
      intro s hs
      rw [EditorState.editing?, hs] at hedit
      exact (Option.some.inj hedit).symm
    · rename_i hedit
      refine .refl fun s hs heq => hedit ?_
      rw [EditorState.editing?, hs, show element = s.element from heq]
      rfl
  | editKeyDown element key =>
    rw [handleEvent_editKeyDown]
    split
    · rename_i hedit
      refine editStep_endEdit hel hf false fun s hs => ⟨hedit.1, ?_⟩
      have same := hedit.2
      rw [EditorState.editing?, hs] at same
      exact (Option.some.inj same).symm
    · rename_i hedit
      refine .refl fun s hs heq => hedit ⟨heq.1, ?_⟩
      rw [EditorState.editing?, hs, show element = s.element from heq.2]
      rfl

/-- An operation ends an edit exactly if it is one of those that do. -/
theorem editStep_operate (hel : EditsElement e) (hf : e.page.outbox.failing = false)
    (o : Operation) :
    EditStep (Step.operate o).commits (fun s => e.operationEnds s o) e (e.operate o) := by
  cases o with
  | contentChanged => exact .of_only (contentChanged_only e) (by decide) fun _ _ h => h
  | receive data fromParent =>
    show EditStep false _ e (e.receive data fromParent).1
    rcases receive_cases e data fromParent with ⟨r, level, message, fields, hr, heq⟩ | ⟨c, hc, heq⟩
    · rw [heq]
      refine .of_only (log_only e level message fields) (by decide) ?_
      intro s _
      rintro ⟨c, hc, -⟩
      exact absurd (hr.symm.trans hc) (by simp)
    · rw [heq]
      have commanded := editStep_handleCommand hel hf c
      refine ⟨fun s hs he => commanded.goesOn s hs fun h => he ⟨c, hc, h⟩, ?_,
        commanded.closed⟩
      intro s hs he
      obtain ⟨c', hc', hends⟩ := he
      cases hc.symm.trans hc'
      exact commanded.ends s hs hends
  | command c => exact editStep_handleCommand hel hf c
  | setMode m => exact editStep_setMode hel hf m
  | event ev => exact editStep_handleEvent hel hf ev
  | startEdit n => exact editStep_startEdit hel hf n
  | endEdit commit => exact editStep_endEdit hel hf commit fun _ _ => trivial

/-- What a step does to the editing of a text. -/
theorem step_edit (hel : EditsElement e) (hf : e.page.outbox.failing = false) {x : Step}
    (hx : x ≠ .channel true) : EditStep x.commits (fun s => e.ends s x) e (e.step x) := by
  have never : ∀ s, e.state.session = some s → ¬ False := fun _ _ h => h
  cases x with
  | page x => exact .of_only (edit_only e x) (by simp) never
  | clock time => exact .of_only (clock_only e time) (by decide) never
  | channel failing => exact .of_only (channel_only e failing) (by decide) never
  | operate o => exact editStep_operate hel hf o

theorem editsElement_step (x : Step) (hel : EditsElement e) : EditsElement (e.step x) := by
  cases x with
  | page x => exact hel.of_only (edit_only e x) (by simp)
  | clock time => exact hel.of_only (clock_only e time) (by decide)
  | channel failing => exact hel.of_only (channel_only e failing) (by decide)
  | operate o => exact editsElement_kept.operate o hel

theorem editsElement_run (hnone : e.state.session = none) (xs : List Step) :
    EditsElement (e.run xs) :=
  run_induction (editsElement_of_none hnone) fun x _ _ => editsElement_step x

end

/-! ## Runs -/

/-- A session that is open after a run was opened by a step of it, and has gone on through the steps since. -/
def OpenSince (e : HeadlessEditor) (xs : List Step) (s : Session NodeId) : Prop :=
  ∃ before x during, xs = before ++ x :: during ∧
    EditBegins s (e.run before) (e.run (before ++ [x])) ∧
    ∀ ys, ys <+: during → EditGoesOn (e.run (before ++ [x])) (e.run (before ++ x :: ys))

/-- An edit that goes on has been open since the same step. -/
theorem openSince_snoc {e : HeadlessEditor} {xs : List Step} {x : Step} {s : Session NodeId}
    (h : OpenSince e xs s) (on : EditGoesOn (e.run xs) (e.run (xs ++ [x]))) :
    OpenSince e (xs ++ [x]) s := by
  obtain ⟨before, y, during, rfl, begun, since⟩ := h
  refine ⟨before, y, during ++ [x], by simp, begun, ?_⟩
  intro ys hys
  rcases List.prefix_concat_iff.1 hys with rfl | hys
  · have last := (since during (List.prefix_refl _)).trans on
    simpa using last
  · exact since ys hys

/-- Every open session was opened by a step of the run. -/
theorem openSince_run {e : HeadlessEditor} (hnone : e.state.session = none)
    (hf : e.page.outbox.failing = false) (xs : List Step) (hxs : .channel true ∉ xs)
    {s : Session NodeId} (hs : (e.run xs).state.session = some s) : OpenSince e xs s := by
  -- on the run from its end: the last step opened the session or let it go on
  induction xs using List.reverseRecOn generalizing s with
  | nil => exact absurd (hnone.symm.trans hs) (by simp)
  | append_singleton xs x ih =>
    have earlier : .channel true ∉ xs := fun h => hxs (by simp [h])
    have stepped := step_edit (editsElement_run hnone xs) (notFailing_run earlier hf) (x := x)
      fun h => hxs (by simp [h])
    have snoc : e.run (xs ++ [x]) = (e.run xs).step x := run_append e xs [x]
    have begun : GoesFrom (e.run xs) ((e.run xs).step x) → OpenSince e (xs ++ [x]) s := by
      rintro (⟨hn, -⟩ | ⟨t, b⟩)
      · exact absurd (hn.symm.trans (snoc ▸ hs)) (by simp)
      · have same : t = s := Option.some.inj (b.session.symm.trans (snoc ▸ hs))
        subst same
        refine ⟨xs, x, [], rfl, snoc ▸ b, ?_⟩
        intro ys hys
        rw [List.prefix_nil.1 hys]
        exact .refl _
    cases ht : (e.run xs).state.session with
    | none => exact begun (stepped.closed ht).2
    | some t =>
      by_cases hends : (e.run xs).ends t x
      · exact begun (stepped.ends t ht hends).2
      · have on := stepped.goesOn t ht hends
        have same : t = s := Option.some.inj (ht.symm.trans (on.session.symm.trans (snoc ▸ hs)))
        subst same
        exact openSince_snoc (ih earlier ht) (snoc ▸ on)

/-- A session that is open after a run was opened by a step of the run, when its opening text was the text of
its element, and the next step lets it go on or ends it and reports it truly. -/
theorem edit_run (d : Document) (config : EditorConfig) (time : String) {xs : List Step} {x : Step}
    (hxs : .channel true ∉ xs ++ [x]) {s : Session NodeId}
    (hs : ((new d config time).run xs).state.session = some s) :
    OpenSince (new d config time) xs s ∧
      (¬ ((new d config time).run xs).ends s x →
        EditGoesOn ((new d config time).run xs) ((new d config time).run (xs ++ [x]))) ∧
      (((new d config time).run xs).ends s x →
        EditEnds x.commits s ((new d config time).run xs) ((new d config time).run (xs ++ [x]))) := by
  have earlier : .channel true ∉ xs := fun h => hxs (by simp [h])
  have element : EditsElement ((new d config time).run xs) := editsElement_run rfl xs
  have stepped := step_edit element (notFailing_run earlier rfl) (x := x) fun h => hxs (by simp [h])
  rw [show (new d config time).run (xs ++ [x]) = ((new d config time).run xs).step x from
    run_append _ xs [x]]
  exact ⟨openSince_run rfl rfl xs earlier hs, stepped.goesOn s hs,
    fun hends => (stepped.ends s hs hends).1⟩

/-- The user writes another text into an element and leaves it. -/
theorem edit_run_blur :
    let xs : List Step := [.page (.appendElement 0 "p"), .page (.appendText 1 "Hello"),
      .operate (.startEdit 1), .page (.setTextContent 1 "Bye")]
    OpenSince (new .empty {} "") xs ⟨1, "Hello", none⟩ ∧
      EditEnds true ⟨1, "Hello", none⟩ ((new .empty {} "").run xs)
        ((new .empty {} "").run (xs ++ [.operate (.event (.blur 1))])) := by
  intro xs
  have opened : ((new .empty {} "").run xs).state.session = some ⟨1, "Hello", none⟩ := rfl
  obtain ⟨since, -, reported⟩ := edit_run .empty {} "" (x := .operate (.event (.blur 1)))
    (by simp [xs]) opened
  exact ⟨since, reported rfl⟩

end Editor

end InPlace

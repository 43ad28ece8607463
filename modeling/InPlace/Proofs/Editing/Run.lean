import InPlace.Proofs.Editing.Reactions
import InPlace.Proofs.Headless.Edits

/-!
# Runs of the editor

An editor is put into a page and operated on in any order. Between its operations the page edits its
document, time passes, and the channel to the host may break or be mended. A run is a list of such steps.

What holds in every state of every run is shown step by step (`run_induction`), and for the operations piece
by piece: `Kept P` lists the pieces that the operations are made of, and `Kept.operate` says that what every
piece keeps, every operation keeps.

Main statements: `run_induction`, `operate_only` and `Kept.operate`.
-/

namespace InPlace

open Headless (Document Part PageEdit)

/-- What an editor can be asked to do. -/
inductive Operation where
  /-- The elements of the page have changed, as they have when the editor starts. -/
  | contentChanged
  | receive (data : Json) (fromParent : Bool)
  | command (c : Command)
  | setMode (m : EditMode)
  | event (ev : PageEvent NodeId)
  | startEdit (n : NodeId)
  | endEdit (commit : Bool)

/-- A step of a run. -/
inductive Step where
  | page (x : PageEdit)
  /-- It is now this time of day. -/
  | clock (time : String)
  /-- From now on messages to the host fail, or no longer do. -/
  | channel (failing : Bool)
  | operate (o : Operation)

namespace Step

/-- Whether a step leaves parts of the document alone, unless the editor itself writes them. -/
def Spares (ps : List Part) : Step → Prop
  | page x => x.Spares ps
  | _ => True

instance (ps : List Part) : (x : Step) → Decidable (x.Spares ps)
  | page x => inferInstanceAs (Decidable (x.Spares ps))
  | clock _ | channel _ | operate _ => isTrue trivial

end Step

namespace Editor

/-- A new editor in a page with this document. -/
def new (d : Document) (config : EditorConfig) (time : String) : HeadlessEditor :=
  { page := { document := d, clock := time }, config }

/-- The editor after an operation. -/
def operate (e : HeadlessEditor) : Operation → HeadlessEditor
  | .contentChanged => e.contentChanged
  | .receive data fromParent => (e.receive data fromParent).1
  | .command c => (e.handleCommand c).1
  | .setMode m => (e.setMode m).1
  | .event ev => (e.handleEvent ev).1
  | .startEdit n => e.startEdit n
  | .endEdit commit => e.endEdit commit

/-- The editor after a step. -/
def step (e : HeadlessEditor) : Step → HeadlessEditor
  | .page x => { e with page := e.page.onDocument x.apply }
  | .clock time => { e with page.clock := time }
  | .channel failing => { e with page.outbox.failing := failing }
  | .operate o => e.operate o

/-- The editor after a run. -/
def run (e : HeadlessEditor) (xs : List Step) : HeadlessEditor :=
  xs.foldl step e

theorem run_append (e : HeadlessEditor) (xs ys : List Step) :
    e.run (xs ++ ys) = (e.run xs).run ys :=
  List.foldl_append

theorem run_cons (e : HeadlessEditor) (x : Step) (xs : List Step) :
    e.run (x :: xs) = (e.step x).run xs :=
  rfl

/-- What holds at first and is kept by every step of a run holds after the run. -/
theorem run_induction {P : HeadlessEditor → Prop} {e : HeadlessEditor} {xs : List Step} (h : P e)
    (hstep : ∀ x ∈ xs, ∀ e, P e → P (e.step x)) : P (e.run xs) := by
  induction xs generalizing e with
  | nil => exact h
  | cons x xs ih =>
    rw [run_cons]
    exact ih (hstep x (by simp) e h) fun y hy => hstep y (by simp [hy])

theorem edit_only (e : HeadlessEditor) (x : PageEdit) :
    Only (x.parts.map .page) e (e.step (.page x)) :=
  onDocument_only x.parts e x.apply (x.apply_only _)

theorem clock_only (e : HeadlessEditor) (time : String) : Only [] e (e.step (.clock time)) :=
  only_of_document [] rfl (.refl [] _)

theorem channel_only (e : HeadlessEditor) (failing : Bool) :
    Only [.channel] e (e.step (.channel failing)) := by
  refine ⟨rfl, List.prefix_refl _, fun _ h => h, ?_⟩
  intro a ha
  cases a with
  | page p => exact Part.Same.refl p _
  | channel => exact absurd (by simp) ha
  | _ => rfl

/-- The aspects that no edit of a page reaches. -/
abbrev inner : List Aspect :=
  [.mode, .listening, .ready, .hover, .selection, .session, .channel, .outbox]

/-- An edit reaches neither the parts that it spares nor what is not of the page. -/
theorem not_mem_of_spares {x : PageEdit} {ps : List Part} (h : (Step.page x).Spares ps) :
    ∀ a ∈ ps.map Aspect.page ++ inner, a ∉ x.parts.map Aspect.page := by
  intro a ha hin
  obtain ⟨p, hp, rfl⟩ := List.mem_map.1 hin
  rcases List.mem_append.1 ha with hps | hpr
  · obtain ⟨q, hq, hqp⟩ := List.mem_map.1 hps
    cases hqp
    exact h p hq hp
  · simp at hpr

/-! ## Since a step -/

/-- A step of this kind was made from a state of the run, and all states since then are of that kind. -/
def Since (e : HeadlessEditor) (P : HeadlessEditor → Step → Prop) (Q : HeadlessEditor → Prop)
    (xs : List Step) : Prop :=
  ∃ before x after, xs = before ++ x :: after ∧ P (e.run before) x ∧
    ∀ ys, ys <+: after → Q (e.run (before ++ x :: ys))

section

variable {e : HeadlessEditor} {P : HeadlessEditor → Step → Prop} {Q : HeadlessEditor → Prop} {xs : List Step}

theorem not_since_nil : ¬ e.Since P Q [] := by
  rintro ⟨before, x, after, h, -, -⟩
  simp at h

/-- With one more step: the state is of that kind, and the step that began it was made before or is this one. -/
theorem since_snoc {x : Step} :
    e.Since P Q (xs ++ [x]) ↔ Q (e.run (xs ++ [x])) ∧ (e.Since P Q xs ∨ P (e.run xs) x) := by
  constructor
  · rintro ⟨before, y, after, h, began, since⟩
    rcases List.eq_nil_or_concat after with rfl | ⟨after, z, rfl⟩
    · obtain ⟨rfl, hx⟩ := List.append_inj' h rfl
      cases hx
      exact ⟨since [] (List.prefix_refl _), .inr began⟩
    · have split : xs ++ [x] = (before ++ y :: after) ++ [z] := by simpa using h
      obtain ⟨rfl, hx⟩ := List.append_inj' split rfl
      cases hx
      refine ⟨?_, .inl ⟨before, y, after, rfl, began, ?_⟩⟩
      · have last := since (after ++ [x]) (by simp)
        simpa using last
      · exact fun ys hys => since ys (hys.trans (by simp))
  · rintro ⟨last, ⟨before, y, after, rfl, began, since⟩ | began⟩
    · refine ⟨before, y, after ++ [x], by simp, began, ?_⟩
      intro ys hys
      rcases List.prefix_concat_iff.1 hys with rfl | hys
      · simpa using last
      · exact since ys hys
    · refine ⟨xs, x, [], rfl, began, ?_⟩
      intro ys hys
      rw [List.prefix_nil.1 hys]
      exact last

/-- The last state is of that kind. -/
theorem Since.last (h : e.Since P Q xs) : Q (e.run xs) := by
  obtain ⟨before, x, after, rfl, -, since⟩ := h
  exact since after (List.prefix_refl _)

end

/-! ## The footprint of an operation -/

/-- The aspects that operations reach, the news of changed elements apart. -/
abbrev operating : List Aspect :=
  .mode :: .told (.mode .enabled) :: .told (.mode .disabled) ::
    .page (.attr Overlay.savingAttribute) :: (fittings ++ reacting)

/-- A change of mode touches what operations do. -/
theorem setMode_only (e : HeadlessEditor) (m : EditMode) : Only operating e (e.setMode m).1 := by
  refine setMode_induction m (.refl _ e) ?_
    (fun _ => (enable_only e).mono (by decide)) (fun _ => (leaveSaving_only e).mono (by decide))
    (fun _ => (enterSaving_only e).mono (by decide)) fun _ => (disable_only e).mono (by decide)
  intro e' level message fields h
  exact (h.trans (log_only e' level message fields)).mono (by decide)

/-- An operation touches what operations do. -/
theorem operate_only (e : HeadlessEditor) {o : Operation} (h : o ≠ .contentChanged) :
    Only operating e (e.operate o) := by
  have commanded : ∀ c, Only operating e (e.handleCommand c).1 := by
    intro c
    by_cases hc : ∃ m, c = .setMode m
    · obtain ⟨m, rfl⟩ := hc
      exact setMode_only e m
    · exact (handleCommand_only e fun m hm => hc ⟨m, hm⟩).mono (by decide)
  cases o with
  | contentChanged => exact absurd rfl h
  | receive data fromParent =>
    exact receive_induction data fromParent
      (fun level message fields => (log_only e level message fields).mono (List.nil_subset _)) commanded
  | command c => exact commanded c
  | setMode m => exact setMode_only e m
  | event ev => exact (handleEvent_only e ev).mono (by decide)
  | startEdit n => exact (startEdit_only e n).mono (by decide)
  | endEdit commit => exact (endEdit_only e commit).mono (by decide)

/-- What is an element stays one in every step. -/
theorem isSome_element?_step (e : HeadlessEditor) (x : Step) {n : NodeId}
    (h : (e.page.document.element? n).isSome) : ((e.step x).page.document.element? n).isSome := by
  cases x with
  | page x => exact (edit_only e x).elements n h
  | clock time => exact (clock_only e time).elements n h
  | channel failing => exact (channel_only e failing).elements n h
  | operate o =>
    by_cases ho : o = .contentChanged
    · subst ho
      exact (contentChanged_only e).elements n h
    · exact (operate_only e ho).elements n h

/-! ## The pieces of the operations -/

/-- Aspects that come with the reactions, and that neither say what is selected or edited nor reach the
host. -/
abbrev asides : List Aspect :=
  [.page .tree, .page (.attr "class"), .page (.attr "style"),
    .page (.attr Overlay.hoveredAttribute), .page (.attr Overlay.fullWidthAttribute),
    .page (.attr Overlay.savingAttribute), .page .documentListeners,
    .page (.stylesheet Overlay.stylesId), .page (.stylesheet Overlay.scrollId), .page .bodyCursor,
    .listening, .hover]

/-- What a predicate needs so that every operation keeps it. -/
structure Kept (P : HeadlessEditor → Prop) : Prop where
  aside : ∀ {e e'}, Only asides e e' → P e → P e'
  /-- Telling what is hovered or selected. -/
  tell : ∀ {e} {n : Notice}, n.topic ∈ [.selection, .hover, .cleared] → P e → P (e.tell n)
  announce : ∀ {e}, P e → P e.announce
  releaseSelection : ∀ {e}, P e → P e.releaseSelection
  select : ∀ {e n}, (e.page.document.element? n).isSome → P e → P (e.select n)
  dropped : ∀ {e n page}, e.state.selected? = some n → e.state.editing? ≠ some n →
    Page.remove? e.page n = some page → P e → P (e.dropped n page)
  endEdit : ∀ {e} (commit : Bool), P e → P (e.endEdit commit)
  beginEdit : ∀ {e} (n : NodeId), e.state.session = none → P e → P (e.beginEdit n)
  input : ∀ {e} (n : NodeId), P e → P (e.input n)
  enable : ∀ {e}, P e → P (e.enter .enabled)
  disable : ∀ {e}, e.state.mode ≠ .disabled → P e → P (e.enter .disabled)
  save : ∀ {e}, e.state.mode = .enabled → P e →
    P { e with state := { e.state with mode := .saving } }

namespace Kept

variable {P : HeadlessEditor → Prop} (k : Kept P) {e : HeadlessEditor}

include k

/-- What shows in no aspect is kept. -/
theorem unseen {e' : HeadlessEditor} (h : Only [] e e') (hP : P e) : P e' :=
  k.aside (h.mono (List.nil_subset _)) hP

theorem log (level : LogLevel) (message : String) (fields : List (String × String)) (h : P e) :
    P (e.log level message fields) :=
  k.unseen (log_only e _ _ _) h

theorem tellAbout (n : NodeId) (detail : Bool) (notice : Descriptor → Notice)
    (ht : ∀ d, (notice d).topic ∈ [Topic.selection, .hover, .cleared]) (h : P e) :
    P (e.tellAbout n detail notice) :=
  k.tell (ht _) (k.unseen (describe_only e n detail) h)

theorem clearHover (notify : Bool) (h : P e) : P (e.clearHover notify) := by
  have unhovered := fun n => k.aside ((unhover_only e n).mono (by decide)) h
  rcases clearHover_cases e notify with ⟨-, heq⟩ | ⟨n, heq | heq⟩
  · rwa [heq]
  · rw [heq]
    exact unhovered n
  · rw [heq]
    exact k.tell (by decide) (unhovered n)

theorem hoverElement (n : NodeId) (h : P e) : P (e.hoverElement n) := by
  have cleared := k.clearHover false h
  have marked := k.aside ((markHovered_only _ n).mono (by decide)) cleared
  have hovered := k.aside ((hover_only _ (some n)).mono (by decide)) marked
  have topic : Topic.hover ∈ [Topic.selection, .hover, .cleared] := by decide
  exact k.tellAbout n false (fun d => .hoverChanged (some d)) (fun _ => topic) hovered

/-! ### Modes -/

theorem enableMode (h : P e) : P e.enable := by
  rw [enable_eq]
  exact k.enable (k.aside ((fitOut_only e).mono (by decide)) h)

theorem leaveSaving (h : P e) : P e.leaveSaving := by
  have shown := k.aside ((setBodyAttribute_only e Overlay.savingAttribute none).mono (by decide)) h
  exact k.enable shown

theorem enterSaving (hm : e.state.mode = .enabled) (h : P e) : P e.enterSaving := by
  have held := setBodyAttribute_only e Overlay.savingAttribute (some "true")
  have ended := held.trans (endEdit_only _ false)
  have released := (ended.trans (releaseSelection_only _)).trans (clearHover_only _ false)
  -- the mode at the end is the one at the start, since only the last piece changes it
  refine k.save ((released.mode_eq (by decide)).trans hm) (k.clearHover false ?_)
  exact k.releaseSelection (k.endEdit false (k.aside (held.mono (by decide)) h))

theorem disableMode (hm : e.state.mode ≠ .disabled) (h : P e) : P e.disable := by
  have hushed := (endEdit_only e false).trans (hush_only _)
  have cleared := (hushed.trans (releaseSelection_only _)).trans (clearHover_only _ false)
  have stripped := cleared.trans (strip_only _)
  rw [disable_eq]
  refine k.disable ?_ (k.aside ((strip_only _).mono (by decide)) (k.clearHover false
    (k.releaseSelection (k.aside ((hush_only _).mono (by decide)) (k.endEdit false h)))))
  rw [stripped.mode_eq (by decide)]
  exact hm

theorem setMode (m : EditMode) (h : P e) : P (e.setMode m).1 :=
  setMode_induction m h (fun _ level message fields hP => k.log level message fields hP)
    (fun _ => k.enableMode h) (fun _ => k.leaveSaving h) (fun hm => k.enterSaving hm h)
    fun hm => k.disableMode hm h

/-! ### Commands of the host -/

theorem letGo (n : NodeId) (h : P e) : P (e.letGo n) := by
  have ended := k.endEdit false h
  rcases letGo_cases e n with ⟨-, heq | heq⟩ | ⟨-, heq | heq⟩
  · rwa [heq]
  · rw [heq]
    exact k.clearHover false ended
  · rwa [heq]
  · rw [heq]
    exact k.clearHover false h

theorem deleteElement (n : NodeId) (hn : e.state.selected? = some n) (h : P e) :
    P (e.deleteElement n).1 := by
  rcases deleteElement_cases e n with heq | ⟨page, hp, heq⟩
  · rw [heq]
    exact k.log _ _ _ (k.letGo n h)
  · rw [heq]
    have selected : (e.letGo n).state.selected? = some n := by
      rw [← hn]
      exact (letGo_only e n).selected?_eq (by decide)
    exact k.dropped selected (editing?_letGo e n) hp (k.letGo n h)

theorem clearSelection (h : P e) : P e.clearSelection :=
  k.tell (by decide) (k.releaseSelection (k.endEdit false h))

/-- What is kept by the parts of a command is kept by any command. -/
theorem handleCommand (c : Command) (h : P e) : P (e.handleCommand c).1 := by
  have logged : e.state.selected? = none → ∀ level message fields, P (e.log level message fields) :=
    fun _ level message fields => k.log level message fields h
  cases c with
  | setMode m => exact k.setMode m h
  | updateText text =>
    exact withSelected_induction _ logged fun n _ =>
      k.aside ((updateText_only e n text).mono (by decide)) h
  | updateStyles styles =>
    exact withSelected_induction _ logged fun n _ =>
      k.aside ((updateStyles_only e n styles).mono (by decide)) h
  | updateClasses changes =>
    exact withSelected_induction _ logged fun n _ =>
      k.aside ((updateClasses_only e n changes).mono (by decide)) h
  | deleteElement => exact withSelected_induction _ logged fun n hn => k.deleteElement n hn h
  | clearSelection => exact k.clearSelection h

theorem receive (data : Json) (fromParent : Bool) (h : P e) : P (e.receive data fromParent).1 :=
  receive_induction data fromParent (fun level message fields => k.log level message fields h)
    fun c => k.handleCommand c h

/-! ### Events of the page -/

theorem startEdit (n : NodeId) (h : P e) : P (e.startEdit n) := by
  unfold Editor.startEdit
  split
  · exact h
  · exact k.beginEdit n (session_endEdit e false) (k.endEdit false h)

theorem chosen {n : NodeId} (hn : (e.page.document.element? n).isSome) (h : P e) :
    P (e.chosen n) := by
  have known := metadata_only e n
  have topic : Topic.selection ∈ [Topic.selection, .hover, .cleared] := by decide
  exact k.tellAbout n true (fun d => .selectionChanged (some d)) (fun _ => topic)
    (k.select (known.elements n hn) (k.unseen known h))

theorem clickElement {n : NodeId} (hn : (e.page.document.element? n).isSome)
    (hs : e.state.session = none) (h : P e) : P (e.clickElement n) := by
  rcases clickElement_cases hs n with heq | heq | heq
  · rw [heq]
    exact k.log _ _ _ (k.unseen (metadata_only e n) h)
  · rw [heq]
    exact k.chosen hn h
  · rw [heq]
    exact k.beginEdit n (((chosen_only e n).session_eq (by decide)).trans hs) (k.chosen hn h)

theorem click (target : NodeId) (h : P e) : P (e.click target).1 := by
  have ended := k.endEdit true h
  rcases click_cases e target with ⟨-, heq⟩ | ⟨-, heq | ⟨n, hn, heq⟩⟩
  · rwa [heq]
  · rw [heq]
    exact k.tell (by decide) (k.releaseSelection ended)
  · rw [heq]
    exact k.clickElement (element?_of_identified? hn) (session_endEdit e true) ended

theorem keyDown (key : String) (h : P e) : P (e.keyDown key) := by
  rcases keyDown_cases e key with heq | ⟨-, heq⟩
  · rwa [heq]
  · rw [heq]
    exact k.tell (by decide) (k.clearHover true (k.releaseSelection h))

theorem pointerOver (target : NodeId) (h : P e) : P (e.pointerOver target) := by
  have known := fun n => k.unseen (metadata_only e n) h
  rcases pointerOver_cases e target with heq | ⟨-, heq | ⟨n, -, heq | heq⟩⟩
  · rwa [heq]
  · rw [heq]
    exact k.clearHover true h
  · rw [heq]
    exact k.clearHover true (known n)
  · rw [heq]
    exact k.hoverElement n (known n)

/-- What is kept by the parts of an event is kept by any event. -/
theorem handleEvent (ev : PageEvent NodeId) (h : P e) : P (e.handleEvent ev).1 := by
  cases ev with
  | click target => exact k.click target h
  | submit target => exact h
  | keyDown key => exact k.keyDown key h
  | pointerOver target => exact k.pointerOver target h
  | scroll => exact k.clearHover true h
  | input element => exact k.input element h
  | blur element =>
    rw [handleEvent_blur]
    split
    · exact k.endEdit true h
    · exact h
  | editKeyDown element key =>
    rw [handleEvent_editKeyDown]
    split
    · exact k.endEdit false h
    · exact h

/-- What every piece of the operations keeps, every operation keeps. -/
theorem operate (o : Operation) (h : P e) : P (e.operate o) := by
  cases o with
  | contentChanged =>
    show P e.contentChanged
    rw [contentChanged_eq]
    exact k.announce (k.aside ((pruned_only e).mono (by decide)) h)
  | receive data fromParent => exact k.receive data fromParent h
  | command c => exact k.handleCommand c h
  | setMode m => exact k.setMode m h
  | event ev => exact k.handleEvent ev h
  | startEdit n => exact k.startEdit n h
  | endEdit commit => exact k.endEdit commit h

end Kept

/-! ## The channel -/

section

variable {e : HeadlessEditor}

/-- A channel that works goes on to work, unless it is made to fail. -/
theorem notFailing_kept : Kept fun e => e.page.outbox.failing = false where
  aside h := (h.failing_eq (by decide)).trans
  tell {e n} _ := ((tell_only e n.topic rfl).failing_eq (by simp)).trans
  announce := ((announce_only _).failing_eq (by decide)).trans
  releaseSelection := ((releaseSelection_only _).failing_eq (by decide)).trans
  select _ := ((select_only _ _).failing_eq (by decide)).trans
  dropped _ _ hp := ((dropped_only hp).failing_eq (by decide)).trans
  endEdit commit := ((endEdit_only _ commit).failing_eq (by decide)).trans
  beginEdit n _ := ((beginEdit_only _ n).failing_eq (by decide)).trans
  input n := ((input_only _ n).failing_eq (by decide)).trans
  enable := ((enter_only _ .enabled).failing_eq (by decide)).trans
  disable _ := ((enter_only _ .disabled).failing_eq (by decide)).trans
  save _ := ((mode_only _ .saving).failing_eq (by decide)).trans

/-- The editor never breaks the channel. -/
theorem notFailing_step {x : Step} (hx : x ≠ .channel true) (h : e.page.outbox.failing = false) :
    (e.step x).page.outbox.failing = false := by
  cases x with
  | page x => exact ((edit_only e x).failing_eq (by simp)).trans h
  | clock time => exact ((clock_only e time).failing_eq (by decide)).trans h
  | channel failing =>
    cases failing with
    | false => rfl
    | true => exact absurd rfl hx
  | operate o => exact notFailing_kept.operate o h

/-- In a run in which the page never breaks it the channel stays whole. -/
theorem notFailing_run {xs : List Step} (hxs : .channel true ∉ xs)
    (h : e.page.outbox.failing = false) : (e.run xs).page.outbox.failing = false := by
  refine run_induction (P := fun e => e.page.outbox.failing = false) h ?_
  intro x hx e
  exact notFailing_step fun heq => hxs (heq ▸ hx)

end

end Editor

end InPlace

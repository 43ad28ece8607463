import InPlace.Proofs.Editing.Names

/-!
# The selection as the host knows it

A host that hears every message can always tell what is selected. It holds the identity that it was told last, until
it is told that nothing is selected. It also has to remember what it has asked for: saving, the end of all editing
and a deletion take the selection away without a message about it.

What is held and what is selected agree after every reaction (`Reflects`), and so after every run. That the identity
which is told is the one that the element has needs the names that the editor remembers to be sound.

Main statements: `reflects_click`, `handleCommand_agrees` and `mirror_run`.
-/

namespace InPlace

open Headless (Document PageEdit)
open Envelope (identityJson)

namespace Envelope

/-- What a host holds to be selected once it has heard a message: nothing, or the identity that it was told. A
message that nothing is selected has no identity in it. -/
def reflect (view : Option Json) (m : Envelope) : Option Json :=
  match m.topic? with
  | some .selection => m.identity?
  | some .cleared => none
  | _ => view

theorem reflect_selected (view : Option Json) (d : Descriptor) (tag : String) :
    reflect view (ofNotice (.selectionChanged (some d)) tag) = some (identityJson d.identity) := by
  show d.toJson.get? "identity" = _
  rw [Descriptor.toJson, Json.get?_ofFields, Descriptor.fields]
  cases d.styles <;> cases d.geometry <;> rfl

theorem reflect_deselected (view : Option Json) (tag : String) :
    reflect view (ofNotice (.selectionChanged none) tag) = none :=
  rfl

theorem reflect_cleared (view : Option Json) (tag : String) :
    reflect view (ofNotice .selectionCleared tag) = none :=
  rfl

/-- Messages about other things leave the view of the host. -/
theorem reflect_of_ne {m : Envelope} (hs : m.topic? ≠ some .selection) (hc : m.topic? ≠ some .cleared)
    (view : Option Json) : reflect view m = view := by
  unfold reflect
  split
  · contradiction
  · contradiction
  · rfl

/-- Messages about other things change nothing. -/
theorem foldl_reflect {ms : List Envelope} (hs : ∀ m ∈ ms, m.topic? ≠ some .selection)
    (hc : ∀ m ∈ ms, m.topic? ≠ some .cleared) (view : Option Json) : ms.foldl reflect view = view := by
  induction ms with
  | nil => rfl
  | cons m ms ih =>
    obtain ⟨hm, hs⟩ := List.forall_mem_cons.1 hs
    obtain ⟨hm', hc⟩ := List.forall_mem_cons.1 hc
    rw [List.foldl_cons, reflect_of_ne hm hm', ih hs hc]

end Envelope

/-- Whether a command ends the selection without a message about it. -/
def Command.endsSilently : Command → Bool
  | .setMode .saving | .setMode .disabled | .deleteElement => true
  | _ => false

/-- The command that an operation carries out, if it is one. A change of mode counts as the command for it. -/
def Operation.command? (config : EditorConfig) : Operation → Option Command
  | .receive data fromParent =>
    match (TrustPolicy.mk config.hostTag).accept data fromParent with
    | .ok c => some c
    | .error _ => none
  | .command c => some c
  | .setMode m => some (.setMode m)
  | _ => none

/-- Whether a step leaves the identity attributes of the elements in the document as they are. It may make new
elements. -/
def Step.KeepsIdentities (d : Document) : Step → Prop
  | .page x => ∀ n, (d.element? n).isSome →
      (x.apply d).attribute? n identityAttribute = d.attribute? n identityAttribute
  | _ => True

namespace Editor

/-- What is selected: nothing, or the identity that the element has now, as a message carries it. -/
def shown (e : HeadlessEditor) : Option Json :=
  e.state.selected?.map fun n =>
    identityJson ((e.page.document.attribute? n identityAttribute).bind Identity.parse?)

/-- Whether a command ended the selection without a message about it. -/
def endedSilently (e : HeadlessEditor) (c : Command) : Bool :=
  c.endsSilently && (e.handleCommand c).2 == .applied

/-- What a host that held `view` holds to be selected after a step: what it makes of the messages, and nothing if the
step carried out a command that ended the selection. -/
def mirrorStep (e : HeadlessEditor) (view : Option Json) (x : Step) : Option Json :=
  let heard := ((e.step x).page.outbox.sent.drop e.page.outbox.sent.length).foldl Envelope.reflect view
  match x with
  | .operate o => if (o.command? e.config).any e.endedSilently then none else heard
  | _ => heard

/-- What a host that held `view` holds to be selected after a run. -/
def mirror (e : HeadlessEditor) (view : Option Json) : List Step → Option Json
  | [] => view
  | x :: xs => (e.step x).mirror (e.mirrorStep view x) xs

/-- No step of a run changes the identity attribute of an element that is there. -/
def KeepsIdentities (e : HeadlessEditor) : List Step → Prop
  | [] => True
  | x :: xs => x.KeepsIdentities e.page.document ∧ (e.step x).KeepsIdentities xs

/-- What is selected afterwards is what a host makes of the new messages that knew what was selected before. -/
def Reflects (e e' : HeadlessEditor) : Prop :=
  ∃ ms, e'.page.outbox.sent = e.page.outbox.sent ++ ms ∧ ms.foldl Envelope.reflect e.shown = e'.shown

section

variable {as : List Aspect} {e e' e'' : HeadlessEditor} {n : NodeId} {k : Notice} {c : Command}

theorem Reflects.refl (e : HeadlessEditor) : Reflects e e :=
  ⟨[], (List.append_nil _).symm, rfl⟩

theorem Reflects.trans (h : Reflects e e') (h' : Reflects e' e'') : Reflects e e'' := by
  obtain ⟨ms, hms, held⟩ := h
  obtain ⟨ns, hns, held'⟩ := h'
  refine ⟨ms ++ ns, by rw [hns, hms, List.append_assoc], ?_⟩
  rw [List.foldl_append, held, held']

/-- The aspects that say what is selected, and what the host is told of it. -/
abbrev mirrored : List Aspect :=
  [.selection, .page (.attr identityAttribute), .told .selection, .told .cleared]

/-- What is shown stays where neither the selection nor identities change. -/
theorem shown_eq (h : Only as e e') (hs : .selection ∉ as) (ha : .page (.attr identityAttribute) ∉ as) :
    e'.shown = e.shown := by
  unfold shown
  rw [h.selected?_eq hs]
  cases e.state.selected? with
  | none => rfl
  | some n => simp only [Option.map_some, h.attribute?_eq ha]

theorem shown_of_none (h : e.state.selected? = none) : e.shown = none := by
  rw [shown, h, Option.map_none]

theorem Reflects.of_only (h : Only as e e') (ha : ∀ a ∈ mirrored, a ∉ as) : Reflects e e' := by
  obtain ⟨ms, hms⟩ := h.sent
  refine ⟨ms, hms.symm, ?_⟩
  rw [shown_eq h (ha _ (by decide)) (ha _ (by decide))]
  exact Envelope.foldl_reflect (h.topic_ne (ha _ (by decide)) hms.symm)
    (h.topic_ne (ha _ (by decide)) hms.symm) _

/-- Whatever was sent before, the last message says what is selected. -/
theorem reflects_tell (h : Only as e e') (channel : e'.page.outbox.failing = false)
    (hk : ∀ view, Envelope.reflect view (.ofNotice k e'.config.editorTag) = e'.shown) :
    Reflects e (e'.tell k) := by
  obtain ⟨ms, hms⟩ := h.sent
  have same : (e'.tell k).shown = e'.shown := shown_eq (tell_only e' k.topic rfl) (by simp) (by simp)
  refine ⟨ms ++ [.ofNotice k e'.config.editorTag], ?_, ?_⟩
  · rw [tell_sent channel, ← hms, List.append_assoc]
  · rw [List.foldl_append, same]
    exact hk _

/-- The host is told that nothing is selected any more. -/
theorem reflects_tell_none (h : Only as e e') (channel : e'.page.outbox.failing = false)
    (hs : e'.state.selected? = none) (hk : k = .selectionChanged none ∨ k = .selectionCleared) :
    Reflects e (e'.tell k) := by
  refine reflects_tell h channel fun view => ?_
  rw [shown_of_none hs]
  rcases hk with rfl | rfl
  · exact Envelope.reflect_deselected view _
  · exact Envelope.reflect_cleared view _

/-! ## What has to hold before a step -/

/-- Messages arrive, what is remembered of elements is sound, and what is selected is an element. -/
structure Attentive (e : HeadlessEditor) : Prop where
  channel : e.page.outbox.failing = false
  names : e.names.Sound
  element : ∀ n, e.state.selected? = some n → (e.page.document.element? n).isSome

theorem element_of_only (h : Only as e e') (hs : .selection ∉ as)
    (element : ∀ n, e.state.selected? = some n → (e.page.document.element? n).isSome) :
    ∀ n, e'.state.selected? = some n → (e'.page.document.element? n).isSome := fun n hn =>
  h.elements n (element n ((h.selected?_eq hs).symm.trans hn))

/-- Only elements are selected, and they stay elements. -/
theorem element_kept :
    Kept fun e => ∀ n, e.state.selected? = some n → (e.page.document.element? n).isSome where
  aside h := element_of_only h (by decide)
  tell {e k} _ := element_of_only (tell_only e k.topic rfl) (by simp)
  announce := element_of_only (announce_only _) (by decide)
  releaseSelection {e} _ n hn := absurd ((selected?_releaseSelection e).symm.trans hn) (by simp)
  select {e n} hn _ m hm := by
    cases (selected?_select e n).symm.trans hm
    exact (select_only e n).elements n hn
  dropped _ _ _ _ n hn := absurd (show none = some n from hn) (by simp)
  endEdit commit := element_of_only (endEdit_only _ commit) (by decide)
  beginEdit n _ := element_of_only (beginEdit_only _ n) (by decide)
  input n := element_of_only (input_only _ n) (by decide)
  enable := element_of_only (enter_only _ .enabled) (by decide)
  disable _ := element_of_only (enter_only _ .disabled) (by decide)
  save _ := element_of_only (mode_only _ .saving) (by decide)

/-- An editor stays attentive while the channel works. -/
theorem Attentive.step (a : Attentive e) {x : Step} (hx : x ≠ .channel true) : Attentive (e.step x) where
  channel := notFailing_step hx a.channel
  names := NameCache.sound_lasting.step x a.names
  element := by
    cases x with
    | page x => exact element_of_only (edit_only e x) (by simp) a.element
    | clock time => exact element_of_only (clock_only e time) (by decide) a.element
    | channel failing => exact element_of_only (channel_only e failing) (by decide) a.element
    | operate o => exact element_kept.operate o a.element

/-! ## Events of the page -/

/-- An element that is selected is told with the identity that it has. -/
theorem reflects_tellAbout (h : Only as e e') (channel : e'.page.outbox.failing = false)
    (names : e'.names.Sound) (hs : e'.state.selected? = some n) (detail : Bool) :
    Reflects e (e'.tellAbout n detail fun d => .selectionChanged (some d)) := by
  have described := describe_only e' n detail
  have reflected : ∀ view, Envelope.reflect view (.ofNotice
      (.selectionChanged (some (e'.describe n detail).1)) (e'.describe n detail).2.config.editorTag) =
        (e'.describe n detail).2.shown := by
    intro view
    rw [Envelope.reflect_selected, identity_describe, names.identity_naming,
      shown_eq described (by decide) (by decide), shown, hs, Option.map_some]
    rfl
  exact reflects_tell (h.trans described) ((described.failing_eq (by decide)).trans channel) reflected

theorem reflects_chosen (channel : e.page.outbox.failing = false) (names : e.names.Sound) (n : NodeId) :
    Reflects e (e.chosen n) := by
  have selected := (metadata_only e n).trans (select_only (e.metadata n).2 n)
  have known : ((e.metadata n).2.select n).names.Sound := by
    rw [names_select, names_metadata]
    exact names.remember _ n
  exact reflects_tellAbout selected ((selected.failing_eq (by decide)).trans channel) known
    (selected?_select _ n) true

theorem reflects_clickElement (channel : e.page.outbox.failing = false) (names : e.names.Sound)
    (hs : e.state.session = none) (n : NodeId) : Reflects e (e.clickElement n) := by
  have chosen := reflects_chosen channel names n
  rcases clickElement_cases hs n with heq | heq | heq
  · rw [heq]
    exact .of_only ((metadata_only e n).trans (log_only _ _ _ _)) (by decide)
  · rw [heq]
    exact chosen
  · rw [heq]
    exact chosen.trans (.of_only (beginEdit_only _ n) (by decide))

theorem reflects_click (a : Attentive e) (target : NodeId) : Reflects e (e.click target).1 := by
  have ended := endEdit_true_only e
  have channel := (ended.failing_eq (by decide)).trans a.channel
  rcases click_cases e target with ⟨-, heq⟩ | ⟨-, heq | ⟨n, -, heq⟩⟩
  · rw [heq]
    exact .refl e
  · rw [heq]
    have released := ended.trans (releaseSelection_only _)
    exact reflects_tell_none released ((released.failing_eq (by decide)).trans a.channel)
      (selected?_releaseSelection _) (.inl rfl)
  · rw [heq]
    have names : (e.endEdit true).names.Sound := by
      rw [names_endEdit]
      exact a.names
    exact (Reflects.of_only ended (by decide)).trans
      (reflects_clickElement channel names (session_endEdit e true) n)

theorem reflects_keyDown (a : Attentive e) (key : String) : Reflects e (e.keyDown key) := by
  rcases keyDown_cases e key with heq | ⟨-, heq⟩
  · rw [heq]
    exact .refl e
  · rw [heq]
    have cleared := (releaseSelection_only e).trans (clearHover_only _ true)
    have none : (e.releaseSelection.clearHover true).state.selected? = none :=
      ((clearHover_only _ true).selected?_eq (by decide)).trans (selected?_releaseSelection e)
    exact reflects_tell_none cleared ((cleared.failing_eq (by decide)).trans a.channel) none (.inr rfl)

theorem reflects_handleEvent (a : Attentive e) (ev : PageEvent NodeId) :
    Reflects e (e.handleEvent ev).1 := by
  cases ev with
  | click target => exact reflects_click a target
  | submit target => exact .refl e
  | keyDown key => exact reflects_keyDown a key
  | pointerOver target => exact .of_only (pointerOver_only e target) (by decide)
  | scroll => exact .of_only (clearHover_only e true) (by decide)
  | input element => exact .of_only (input_only e element) (by decide)
  | blur element =>
    rw [handleEvent_blur]
    split
    · exact .of_only (endEdit_only e true) (by decide)
    · exact .refl e
  | editKeyDown element key =>
    rw [handleEvent_editKeyDown]
    split
    · exact .of_only (endEdit_only e false) (by decide)
    · exact .refl e

/-! ## Commands of the host -/

theorem selected?_enterSaving (e : HeadlessEditor) : e.enterSaving.state.selected? = none :=
  ((clearHover_only _ false).selected?_eq (by decide)).trans (selected?_releaseSelection _)

theorem selected?_disable (e : HeadlessEditor) : e.disable.state.selected? = none := by
  have left := ((clearHover_only (e.endEdit false).hush.releaseSelection false).trans (strip_only _)).trans
    (enter_only _ .disabled)
  rw [disable_eq]
  exact (left.selected?_eq (by decide)).trans (selected?_releaseSelection _)

/-- A change of mode is applied exactly if the mode can follow. -/
theorem endedSilently_setMode (e : HeadlessEditor) (m : EditMode) : e.endedSilently (.setMode m) =
    ((Command.setMode m).endsSilently && canFollow e.state.mode m) := by
  have changed : (e.setMode m).2 = canFollow e.state.mode m := by
    unfold setMode
    cases e.state.mode <;> cases m <;> rfl
  have outcome : (e.handleCommand (.setMode m)).2 =
      if (e.setMode m).2 = true then .applied else .ignored := rfl
  rw [endedSilently, outcome, changed]
  cases canFollow e.state.mode m <;> rfl

/-- A host that knew what was selected when it sent a command knows it afterwards. -/
structure Agrees (e : HeadlessEditor) (c : Command) : Prop where
  ended : e.endedSilently c = true → (e.handleCommand c).1.state.selected? = none
  told : e.endedSilently c = false → Reflects e (e.handleCommand c).1

theorem Agrees.of_ended (h : e.endedSilently c = true)
    (none : (e.handleCommand c).1.state.selected? = none) : Agrees e c :=
  ⟨fun _ => none, fun told => absurd (h.symm.trans told) (by decide)⟩

theorem Agrees.of_reflects (h : e.endedSilently c = false) (reflects : Reflects e (e.handleCommand c).1) :
    Agrees e c :=
  ⟨fun ended => absurd (h.symm.trans ended) (by decide), fun _ => reflects⟩

theorem setMode_agrees (e : HeadlessEditor) (m : EditMode) : Agrees e (.setMode m) := by
  -- the host knows of the end of the selection by the change of the mode, which ends it in silence
  have silent := endedSilently_setMode e m
  obtain ⟨e', level, message, fields, heq, hcases⟩ := setMode_cases e m
  have result : (e.handleCommand (.setMode m)).1 = e'.log level message fields := heq
  have logged := log_only e' level message fields
  rcases hcases with ⟨-, rfl, rfl⟩ | ⟨-, rfl, rfl⟩ | ⟨hm, rfl, rfl⟩ | ⟨hm, rfl, rfl⟩ | ⟨hm, rfl⟩
  · refine .of_reflects silent ?_
    rw [result]
    exact .of_only ((enable_only e).trans logged) (by decide)
  · refine .of_reflects silent ?_
    rw [result]
    exact .of_only ((leaveSaving_only e).trans logged) (by decide)
  · refine .of_ended (silent.trans (by rw [hm]; rfl)) ?_
    rw [result]
    exact selected?_enterSaving e
  · have follows : canFollow e.state.mode .disabled = true := by
      cases hmode : e.state.mode with
      | disabled => exact absurd hmode hm
      | enabled => rfl
      | saving => rfl
    refine .of_ended (silent.trans (by rw [follows]; rfl)) ?_
    rw [result]
    exact selected?_disable e
  · have stays : canFollow e'.state.mode m = false := by
      rcases hm with hm | ⟨hm, rfl⟩
      · rw [hm]
        cases m <;> rfl
      · rw [hm]
        rfl
    refine .of_reflects (silent.trans (by rw [stays, Bool.and_false])) ?_
    rw [result]
    exact .of_only logged (by decide)

theorem deleteElement_agrees (e : HeadlessEditor) : Agrees e .deleteElement := by
  cases hn : e.state.selected? with
  | none =>
    have refused : e.handleCommand .deleteElement = (e.log .warn "No element selected"
        [("kind", Command.deleteElement.kind)], .noSelection) := by
      rw [handleCommand, withSelected, hn]
    refine .of_reflects (by rw [endedSilently, refused]; rfl) ?_
    rw [refused]
    exact .of_only (log_only e _ _ _) (by decide)
  | some n =>
    have commanded : e.handleCommand .deleteElement = e.deleteElement n := by
      rw [handleCommand, withSelected, hn]
    -- only a deletion that is applied ends the selection without a message
    rcases deleteElement_answers e n with heq | ⟨page, -, heq⟩
    · refine .of_reflects (by rw [endedSilently, commanded, heq]; rfl) ?_
      rw [commanded, heq]
      exact .of_only ((letGo_only e n).trans (log_only _ _ _ _)) (by decide)
    · refine .of_ended (by rw [endedSilently, commanded, heq]; rfl) ?_
      rw [commanded, heq]
      rfl

theorem handleCommand_agrees (a : Attentive e) (c : Command) : Agrees e c := by
  have logged : e.state.selected? = none → ∀ level message fields,
      Reflects e (e.log level message fields) :=
    fun _ _ _ _ => .of_only (log_only e _ _ _) (by decide)
  cases c with
  | setMode m => exact setMode_agrees e m
  | updateText text =>
    exact .of_reflects rfl (withSelected_induction _ logged fun n _ =>
      .of_only (updateText_only e n text) (by decide))
  | updateStyles styles =>
    exact .of_reflects rfl (withSelected_induction _ logged fun n _ =>
      .of_only (updateStyles_only e n styles) (by decide))
  | updateClasses changes =>
    exact .of_reflects rfl (withSelected_induction _ logged fun n _ =>
      .of_only (updateClasses_only e n changes) (by decide))
  | deleteElement => exact deleteElement_agrees e
  | clearSelection =>
    have released := (endEdit_only e false).trans (releaseSelection_only _)
    exact .of_reflects rfl (reflects_tell_none released
      ((released.failing_eq (by decide)).trans a.channel) (selected?_releaseSelection _) (.inr rfl))

/-! ## Operations and steps -/

/-- An operation that carries out a command does what the command does; another one lets the host know. -/
theorem operate_cases (a : Attentive e) (o : Operation) :
    (∃ c, o.command? e.config = some c ∧ e.operate o = (e.handleCommand c).1) ∨
      (o.command? e.config = none ∧ Reflects e (e.operate o)) := by
  cases o with
  | contentChanged => exact .inr ⟨rfl, .of_only (contentChanged_only e) (by decide)⟩
  | receive data fromParent =>
    rcases receive_cases e data fromParent with ⟨r, level, message, fields, refused, heq⟩ |
      ⟨c, accepted, heq⟩
    · refine .inr ⟨by rw [Operation.command?, refused], ?_⟩
      show Reflects e (e.receive data fromParent).1
      rw [heq]
      exact .of_only (log_only e level message fields) (by decide)
    · exact .inl ⟨c, by rw [Operation.command?, accepted], heq⟩
  | command c => exact .inl ⟨c, rfl, rfl⟩
  | setMode m => exact .inl ⟨.setMode m, rfl, rfl⟩
  | event ev => exact .inr ⟨rfl, reflects_handleEvent a ev⟩
  | startEdit n => exact .inr ⟨rfl, .of_only (startEdit_only e n) (by decide)⟩
  | endEdit commit => exact .inr ⟨rfl, .of_only (endEdit_only e commit) (by decide)⟩

theorem foldl_heard (h : Reflects e e') :
    (e'.page.outbox.sent.drop e.page.outbox.sent.length).foldl Envelope.reflect e.shown = e'.shown := by
  obtain ⟨ms, hms, held⟩ := h
  rw [hms, List.drop_left, held]

/-- An edit of the page sends nothing and leaves what is selected as it is. -/
theorem reflects_page (a : Attentive e) {x : PageEdit}
    (hx : (Step.page x).KeepsIdentities e.page.document) : Reflects e (e.step (.page x)) := by
  have edited := edit_only e x
  refine ⟨[], (edited.sent_eq (by simp)).trans (List.append_nil _).symm, ?_⟩
  show e.shown = (e.step (.page x)).shown
  unfold shown
  rw [edited.selected?_eq (by simp)]
  cases hn : e.state.selected? with
  | none => rfl
  | some n =>
    have same : (e.step (.page x)).page.document.attribute? n identityAttribute =
        e.page.document.attribute? n identityAttribute := hx n (a.element n hn)
    simp only [Option.map_some, same]

/-- A host that knows what is selected knows it after a step. -/
theorem mirrorStep_shown (a : Attentive e) {x : Step} (hx : x.KeepsIdentities e.page.document) :
    e.mirrorStep e.shown x = (e.step x).shown := by
  cases x with
  | page x => exact foldl_heard (reflects_page a hx)
  | clock time => exact foldl_heard (.of_only (clock_only e time) (by decide))
  | channel failing => exact foldl_heard (.of_only (channel_only e failing) (by decide))
  | operate o =>
    unfold mirrorStep
    dsimp only
    rcases operate_cases a o with ⟨c, hc, heq⟩ | ⟨hc, reflects⟩
    · have step : e.step (.operate o) = (e.handleCommand c).1 := heq
      have agrees := handleCommand_agrees a c
      rw [hc, Option.any_some, step]
      split
      · rename_i ended
        exact (shown_of_none (agrees.ended ended)).symm
      · rename_i told
        exact foldl_heard (agrees.told (eq_false_of_ne_true told))
    · rw [hc, Option.any_none, if_neg Bool.false_ne_true]
      exact foldl_heard reflects

/-! ## Runs -/

/-- Edits that write no identity attributes keep the identities. -/
theorem keepsIdentities_of_spares {x : Step} (h : x.Spares [.attr identityAttribute]) (d : Document) :
    x.KeepsIdentities d := by
  cases x with
  | page x => exact fun n _ => (x.apply_only d).same (.attr identityAttribute) (h _ (by simp)) n
  | clock time => trivial
  | channel failing => trivial
  | operate o => trivial

/-- A new element with an identity leaves those of the others as they are. -/
theorem keepsIdentities_appendIdentified (d : Document) (parent : NodeId) (tag identity : String) :
    (Step.page (.appendIdentified parent tag identity)).KeepsIdentities d := by
  intro n hn
  have fresh : d.nodes.fresh ≠ n := by
    obtain ⟨el, hel⟩ := Option.isSome_iff_exists.1 hn
    obtain ⟨content, hcontent, -⟩ := Option.bind_eq_some_iff.1 hel
    exact (Nat.ne_of_lt (Forest.lt_fresh_of_content? hcontent)).symm
  have grown := (Document.appendElement_only d parent tag).same (.attr identityAttribute) (by decide) n
  show (d.appendIdentified parent tag identity).attribute? n identityAttribute = _
  rw [Document.appendIdentified, Document.attribute?_eq, Document.element?_modifyElement, if_neg fresh]
  exact grown

theorem keepsIdentities_of_forall {xs : List Step} (h : ∀ x ∈ xs, ∀ d, x.KeepsIdentities d) :
    e.KeepsIdentities xs := by
  induction xs generalizing e with
  | nil => trivial
  | cons x xs ih =>
    obtain ⟨hx, hxs⟩ := List.forall_mem_cons.1 h
    exact ⟨hx _, ih hxs⟩

/-- The host has in view what is shown, after every run. -/
theorem mirror_eq_shown (a : Attentive e) {xs : List Step} (hxs : .channel true ∉ xs)
    (hids : e.KeepsIdentities xs) : e.mirror e.shown xs = (e.run xs).shown := by
  induction xs generalizing e with
  | nil => rfl
  | cons x xs ih =>
    have here : x ≠ .channel true := fun h => hxs (h ▸ List.mem_cons_self)
    have rest : .channel true ∉ xs := fun h => hxs (List.mem_cons_of_mem x h)
    rw [mirror, mirrorStep_shown a hids.1, run_cons]
    exact ih (a.step here) rest hids.2

theorem attentive_new (d : Document) (config : EditorConfig) (time : String) :
    Attentive (new d config time) where
  channel := rfl
  names := List.forall_mem_nil _
  element n hn := absurd (show none = some n from hn) (by simp)

/-- After every run in which no message failed and no identity attribute of an element was changed, the host knows
whether something is selected, and the identity of it. -/
theorem mirror_run (d : Document) (config : EditorConfig) (time : String) {xs : List Step}
    (hxs : .channel true ∉ xs) (hids : (new d config time).KeepsIdentities xs) :
    (new d config time).mirror none xs = ((new d config time).run xs).shown :=
  mirror_eq_shown (attentive_new d config time) hxs hids

/-- A paragraph is selected and edited, and then one whose identity attribute stands for no place; and then the host
saves. -/
theorem mirror_run_saving :
    let xs : List Step := [.operate (.setMode .enabled), .page (.appendIdentified 0 "p" "a.tsx:1:2"),
      .page (.appendText 1 "Hello"), .page (.appendIdentified 0 "p" "nowhere"),
      .operate (.event (.click 1)), .page (.setTextContent 1 "Bye"), .operate (.event (.click 3)),
      .operate (.setMode .saving)]
    let e := new .empty {} ""
    e.mirror none (xs.take 5) = some (identityJson (some ⟨"a.tsx:1:2", "a.tsx", 1, 2⟩)) ∧
      e.mirror none (xs.take 7) = some .null ∧ e.mirror none xs = none := by
  intro xs e
  have mended : .channel true ∉ xs := by simp [xs]
  have kept : ∀ x ∈ xs, ∀ d, x.KeepsIdentities d := by
    have spared : ∀ x : Step, x.Spares [.attr identityAttribute] → ∀ d, x.KeepsIdentities d :=
      fun x h => keepsIdentities_of_spares h
    refine List.forall_mem_cons.2 ⟨spared _ (by decide), List.forall_mem_cons.2
      ⟨fun d => keepsIdentities_appendIdentified d 0 "p" "a.tsx:1:2", List.forall_mem_cons.2
        ⟨spared _ (by decide), List.forall_mem_cons.2
          ⟨fun d => keepsIdentities_appendIdentified d 0 "p" "nowhere", fun x hx => ?_⟩⟩⟩⟩
    refine spared x ?_
    simp only [List.mem_cons, List.not_mem_nil, or_false] at hx
    rcases hx with rfl | rfl | rfl | rfl <;> decide
  have known : ∀ k, e.mirror none (xs.take k) = (e.run (xs.take k)).shown := fun k =>
    mirror_run .empty {} "" (fun h => mended (List.mem_of_mem_take h))
      (keepsIdentities_of_forall fun x hx => kept x (List.mem_of_mem_take hx))
  have first : (e.run (xs.take 5)).state.selected? = some 1 := by decide +kernel
  have named : (e.run (xs.take 5)).page.document.attribute? 1 identityAttribute = some "a.tsx:1:2" := by
    decide +kernel
  have second : (e.run (xs.take 7)).state.selected? = some 3 := by decide +kernel
  have unnamed : (e.run (xs.take 7)).page.document.attribute? 3 identityAttribute = some "nowhere" := by
    decide +kernel
  have saved : (e.run (xs.take 8)).state.selected? = none := by decide +kernel
  have place : Identity.parse? "a.tsx:1:2" = some ⟨"a.tsx:1:2", "a.tsx", 1, 2⟩ := by decide +kernel
  have nowhere : Identity.parse? "nowhere" = none := by decide +kernel
  refine ⟨(known 5).trans ?_, (known 7).trans ?_, (known 8).trans (shown_of_none saved)⟩
  · rw [shown, first, Option.map_some, named, Option.bind_some, place]
  · rw [shown, second, Option.map_some, unnamed, Option.bind_some, nowhere]
    rfl

end

end Editor

end InPlace

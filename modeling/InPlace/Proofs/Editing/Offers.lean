import InPlace.Proofs.Editing.Documents
import InPlace.Proofs.Headless.Looks

/-!
# Offers

When the host is offered an element for editing. A click looks at the element before the earlier selection
ends, and the messages are written after that, when the style that the host had tried out there is taken back.
What is offered is editable, unless the element became preformatted by just that (`Undercut`).

Main statement: `offers_run`.
-/

namespace InPlace

open Headless (Document)
open Headless.PageEdit (orSame)

namespace Descriptor

theorem get?_canEditStyles (d : Descriptor) :
    d.toJson.get? "canEditStyles" = some (.bool d.canEditStyles) := by
  rw [toJson, Json.get?_ofFields, fields]
  cases d.styles <;> cases d.geometry <;> rfl

theorem get?_isTextEditable_begun (d : Descriptor) :
    (Notice.editStarted d).payload.get? "isTextEditable" = some (.bool d.isTextEditable) := by
  rw [Notice.payload, Json.get?_ofFields, fields]
  cases d.styles <;> cases d.geometry <;> rfl

end Descriptor

namespace Envelope

/-- Whether a message offers an element for editing. -/
def IsOffer (m : Envelope) : Prop :=
  m.topic? = some .selection ∧ m.payload ≠ .null

/-- Whether a message says that the styles of its element may be edited. -/
def OffersStyles (m : Envelope) : Prop :=
  m.payload.get? "canEditStyles" = some (.bool true)

/-- Whether a message says that the text of its element may be edited. -/
def OffersText (m : Envelope) : Prop :=
  m.payload.get? "isTextEditable" = some (.bool true)

/-- A selection offers styles exactly if its descriptor says so. -/
theorem offersStyles_iff (d : Descriptor) (tag : String) :
    (ofNotice (.selectionChanged (some d)) tag).OffersStyles ↔ d.canEditStyles = true := by
  have read : (ofNotice (.selectionChanged (some d)) tag).payload.get? "canEditStyles" =
      some (.bool d.canEditStyles) := d.get?_canEditStyles
  unfold OffersStyles
  rw [read]
  simp

/-- An edit that has started offers its text exactly if its descriptor says so. -/
theorem offersText_iff (d : Descriptor) (tag : String) :
    (ofNotice (.editStarted d) tag).OffersText ↔ d.isTextEditable = true := by
  have read : (ofNotice (.editStarted d) tag).payload.get? "isTextEditable" =
      some (.bool d.isTextEditable) := d.get?_isTextEditable_begun
  unfold OffersText
  rw [read]
  simp

end Envelope

namespace Editor

/-- The messages that are sent from one editor to a later one are all of this kind. -/
def Sends (P : Envelope → Prop) (e e' : HeadlessEditor) : Prop :=
  ∃ ms, e'.page.outbox.sent = e.page.outbox.sent ++ ms ∧ ∀ m ∈ ms, P m

/-- The click is the editor's and is for this element, which is not preformatted. -/
structure Chooses (e : HeadlessEditor) (target n : NodeId) : Prop where
  heeds : e.heeds target = true
  identified : (e.endEdit true).identified? target = some n
  editable : Editability.isPreformatted (e.endEdit true).page n = false

/-- A click chooses an element that becomes preformatted when the earlier selection is released. -/
def Undercut (e : HeadlessEditor) (x : Step) : Prop :=
  ∃ target n, x = .operate (.event (.click target)) ∧ e.Chooses target n ∧
    Editability.isPreformatted (e.endEdit true).releaseSelection.page n = true

section

variable {P Q : Envelope → Prop} {as : List Aspect} {e e' e'' : HeadlessEditor} {n : NodeId}

theorem Sends.refl (e : HeadlessEditor) : Sends P e e :=
  ⟨[], (List.append_nil _).symm, fun _ h => absurd h List.not_mem_nil⟩

theorem Sends.trans (h : Sends P e e') (h' : Sends P e' e'') : Sends P e e'' := by
  obtain ⟨ms, hms, hP⟩ := h
  obtain ⟨ns, hns, hP'⟩ := h'
  refine ⟨ms ++ ns, by rw [hns, hms, List.append_assoc], ?_⟩
  intro m hm
  rcases List.mem_append.1 hm with hm | hm
  · exact hP m hm
  · exact hP' m hm

theorem Sends.mono (h : Sends P e e') (hPQ : ∀ m, P m → Q m) : Sends Q e e' := by
  obtain ⟨ms, hms, hP⟩ := h
  exact ⟨ms, hms, fun m hm => hPQ m (hP m hm)⟩

/-- What sends nothing sends nothing else. -/
theorem Sends.of_only (h : Only as e e') (ha : .outbox ∉ as) : Sends P e e' :=
  ⟨[], (h.sent_eq ha).trans (List.append_nil _).symm, fun _ h => absurd h List.not_mem_nil⟩

/-- What leaves the messages about a topic as they are sends messages about others. -/
theorem Sends.of_told {t : Topic} (h : Only as e e') (ha : .told t ∉ as) :
    Sends (fun m => m.topic? ≠ some t) e e' := by
  obtain ⟨ms, hms⟩ := h.sent
  exact ⟨ms, hms.symm, h.topic_ne ha hms.symm⟩

theorem sends_tell {k : Notice} (h : P (.ofNotice k e.config.editorTag)) : Sends P e (e.tell k) := by
  rw [tell_eq]
  split
  · exact .of_only (log_only e _ _ _) (by decide)
  · refine ⟨_, rfl, ?_⟩
    intro m hm
    rw [List.mem_singleton.1 hm]
    exact h

/-- What is told of an element is the one message that is sent. -/
theorem sends_tellAbout {detail : Bool} {notice : Descriptor → Notice}
    (h : P (.ofNotice (notice (e.describe n detail).1) e.config.editorTag)) :
    Sends P e (e.tellAbout n detail notice) := by
  have known := describe_only e n detail
  refine (Sends.of_only known (by decide)).trans (sends_tell ?_)
  rw [known.config]
  exact h

/-- The end of an edit sends nothing but its report. -/
theorem sends_report {commit : Bool}
    (h : ∀ (s : Session NodeId) (text tag : String), P (.ofNotice (.editEnded (s.outcome text commit)) tag)) :
    Sends P e (e.endEdit commit) := by
  cases hs : e.state.session with
  | none =>
    rw [endEdit_of_none hs]
    exact .refl e
  | some s =>
    have before := ((settleText_only e s commit).trans (unmarkEdited_only _ s.element)).trans
      (log_only _ .debug "Inline edit ended"
        [("changed", toString (s.outcome (e.page.document.textContent s.element) commit).changed)])
    rw [endEdit_of_some hs]
    exact (Sends.of_only before (by decide)).trans (sends_tell (h s _ _))

/-- That report is about the end of an edit. -/
theorem sends_endEdit (h : ∀ m : Envelope, m.topic? = some .editEnded → P m) (commit : Bool) :
    Sends P e (e.endEdit commit) :=
  sends_report fun s text tag =>
    h _ (by rw [Envelope.topic?_ofNotice, Notice.topic_editEnded_outcome s text commit])

/-! ## Looks -/

/-- The documents of two editors look the same. -/
abbrev SameLooks (e e' : HeadlessEditor) : Prop :=
  e.page.document.SameLooks e'.page.document

theorem sameLooks_orSame {d : Document} {r : Except PageError Document}
    (h : ∀ d', r = .ok d' → d.SameLooks d') : d.SameLooks (orSame d r) := by
  cases r with
  | ok d' => exact h d' rfl
  | error fault => exact .refl d

theorem sameLooks_of_document (h : e'.page.document = e.page.document) : SameLooks e e' := by
  unfold SameLooks
  rw [h]
  exact .refl _

/-- To select an element changes the looks by what it releases, and no further. -/
theorem sameLooks_select (e : HeadlessEditor) (n : NodeId) :
    SameLooks e.releaseSelection (e.select n) := by
  unfold SameLooks
  rw [document_select, document_releaseSelection]
  exact sameLooks_orSame fun _ => Document.sameLooks_setAttribute (by decide)

theorem sameLooks_opened (e : HeadlessEditor) (n : NodeId) (text : String) (i : Option Identity) :
    SameLooks e (e.opened n text i) := by
  have heard : ∀ (ls : List ElementEvent) (d : Document),
      d.SameLooks (ls.foldl (fun d l => orSame d (d.listenTo n l)) d) := by
    intro ls
    induction ls with
    | nil => exact fun d => .refl d
    | cons l ls ih => exact fun d =>
        (sameLooks_orSame fun _ => Document.sameLooks_listenTo).trans (ih _)
  unfold SameLooks
  rw [document_opened]
  exact (sameLooks_orSame fun _ => Document.sameLooks_focus).trans (heard _ _)

theorem sameLooks_openEdit (e : HeadlessEditor) (n : NodeId) (text : String) (i : Option Identity) :
    SameLooks e (e.openEdit n text i) := by
  have same := sameLooks_opened e n text i
  unfold SameLooks at same ⊢
  rwa [document_openEdit, ← document_opened]

theorem sameLooks_marked {page : Headless} (h : markEdited (e.metadata n).2.page n = .ok page) :
    SameLooks e (e.marked n page) := by
  obtain ⟨-, d, h1, h2⟩ := markEdited_eq_ok h
  rw [document_metadata] at h1
  exact (Document.sameLooks_setAttribute (by decide) h1).trans
    (Document.sameLooks_setAttribute (by decide) h2)

theorem sameLooks_unmarked (e : HeadlessEditor) (n : NodeId) (fault : PageError) :
    SameLooks e (e.unmarked n fault) := by
  have known : SameLooks e (e.metadata n).2 := sameLooks_of_document (document_metadata e n)
  exact (known.trans (Document.sameLooks_removeAttribute (by decide) _ n)).trans
    (Document.sameLooks_removeAttribute (by decide) _ n)

/-- An element that begins to be edited looks as it did. -/
theorem sameLooks_beginEdit (e : HeadlessEditor) (n : NodeId) : SameLooks e (e.beginEdit n) := by
  rcases beginEdit_cases e n with ⟨page, h, heq⟩ | ⟨fault, heq⟩
  · rw [heq]
    exact (sameLooks_marked h).trans (sameLooks_openEdit _ n _ _)
  · rw [heq]
    exact sameLooks_unmarked e n fault

theorem sameLooks_chosen (e : HeadlessEditor) (n : NodeId) :
    SameLooks e.releaseSelection (e.chosen n) := by
  have known : (e.metadata n).2.releaseSelection.page.document = e.releaseSelection.page.document := by
    rw [document_releaseSelection, document_releaseSelection, document_metadata,
      (metadata_only e n).selection_eq (by decide)]
  have selected := sameLooks_select (e.metadata n).2 n
  unfold SameLooks at selected ⊢
  rw [known] at selected
  unfold chosen
  rwa [document_tellAbout]

/-! ## Clicks -/

/-- What a click on an element does: nothing where the content is preformatted, and otherwise it selects the
element and may begin to edit it, but only in a tag of running text. -/
theorem clickElement_of_session_none (hs : e.state.session = none) (n : NodeId) :
    (Editability.isPreformatted e.page n = true ∧
      e.clickElement n = (e.metadata n).2.log .trace "Clicked element is not editable" []) ∨
    (Editability.isPreformatted e.page n = false ∧ (e.clickElement n = e.chosen n ∨
      ((Editability.textTags.contains (lowerCase (Page.tagName e.page n))) = true ∧
        e.clickElement n = (e.chosen n).beginEdit n))) := by
  have closed := ((chosen_only e n).session_eq (by decide)).trans hs
  have editable : (e.metadata n).1.editability.isEditable = !Editability.isPreformatted e.page n :=
    Editability.isEditable_ofElement e.page n
  have text : (e.metadata n).1.editability.text = _ := Editability.text_ofElement e.page n
  unfold clickElement
  dsimp only
  rw [editable, text]
  cases hp : Editability.isPreformatted e.page n with
  | true => exact .inl ⟨rfl, rfl⟩
  | false =>
    refine .inr ⟨rfl, ?_⟩
    rw [if_pos (show (!false) = true from rfl)]
    split
    · rename_i h
      simp only [Bool.and_eq_true] at h
      exact .inr ⟨h.1.1, startEdit_of_none closed n⟩
    · exact .inl rfl

/-! ## Messages -/

/-- A message that offers what is not preformatted, unless the earlier selection undercut the click. -/
structure Fair (undercut : Prop) (m : Envelope) : Prop where
  styles : m.IsOffer → (m.OffersStyles ↔ ¬ undercut)
  text : m.topic? = some .editStarted → (m.OffersText ↔ ¬ undercut)

variable {undercut : Prop}

theorem fair_of_topic {m : Envelope} {t : Topic} (h : m.topic? = some t) (hs : t ≠ .selection)
    (ht : t ≠ .editStarted) : Fair undercut m := by
  refine ⟨fun hm => ?_, fun hm => ?_⟩
  · exact absurd (Option.some.inj (h.symm.trans hm.1)) hs
  · exact absurd (Option.some.inj (h.symm.trans hm)) ht

theorem canEditStyles_describe (e : HeadlessEditor) (n : NodeId) (detail : Bool) :
    (e.describe n detail).1.canEditStyles = !Editability.isPreformatted e.page n :=
  Editability.styles_ofElement e.page n

/-- A descriptor says that a text can be edited by the tag and by what is preformatted. -/
theorem isTextEditable_describe (e : HeadlessEditor) (n : NodeId) (detail : Bool) :
    (e.describe n detail).1.isTextEditable =
      (Editability.textTags.contains (lowerCase (Page.tagName e.page n)) &&
        !Editability.isPreformatted e.page n) := by
  rw [← Editability.styles_ofElement]
  exact Editability.text_ofElement e.page n

/-- The message of a selected element is fair if the element is looked at in the same document. -/
theorem sends_chosen (e : HeadlessEditor) (n : NodeId) :
    Sends (Fair (Editability.isPreformatted e.releaseSelection.page n = true)) e (e.chosen n) := by
  have selected := (metadata_only e n).trans (select_only (e.metadata n).2 n)
  have looks : SameLooks e.releaseSelection ((e.metadata n).2.select n) := by
    have same := sameLooks_chosen e n
    unfold SameLooks chosen at same
    rwa [document_tellAbout] at same
  refine (Sends.of_only selected (by decide)).trans (sends_tellAbout ⟨fun _ => ?_, fun ht => ?_⟩)
  · rw [Envelope.offersStyles_iff, canEditStyles_describe, looks.isPreformatted_eq]
    simp
  · rw [Envelope.topic?_ofNotice] at ht
    cases ht

/-- The message of an edit that begins is fair in the same way. -/
theorem sends_beginEdit (e : HeadlessEditor) (n : NodeId)
    (htag : Editability.textTags.contains (lowerCase (Page.tagName e.page n)) = true) :
    Sends (Fair (Editability.isPreformatted e.page n = true)) e (e.beginEdit n) := by
  rcases beginEdit_cases e n with ⟨page, h, heq⟩ | ⟨fault, heq⟩
  · have begun := (marked_only h).trans (opened_only (e.marked n page) n
      (e.page.document.textContent n) (e.metadata n).1.identity)
    have looks := (sameLooks_marked h).trans (sameLooks_opened (e.marked n page) n
      (e.page.document.textContent n) (e.metadata n).1.identity)
    rw [heq, openEdit_eq]
    generalize (e.marked n page).opened n (e.page.document.textContent n) (e.metadata n).1.identity = e'
      at begun looks
    have tag : Page.tagName e'.page n = Page.tagName e.page n := looks.tagName_eq n
    have started : Sends (Fair (Editability.isPreformatted e.page n = true)) e'
        (e'.tellAbout n false .editStarted) := by
      refine sends_tellAbout ⟨fun hm => ?_, fun _ => ?_⟩
      · have topic := hm.1
        rw [Envelope.topic?_ofNotice] at topic
        cases topic
      · rw [Envelope.offersText_iff, isTextEditable_describe, tag, htag, looks.isPreformatted_eq]
        simp
    have popover : Sends (Fair (Editability.isPreformatted e.page n = true))
        (e'.tellAbout n false .editStarted)
        ((e'.tellAbout n false .editStarted).tellAbout n true .openEditor) :=
      sends_tellAbout (fair_of_topic (t := .editor) rfl (by decide) (by decide))
    exact ((Sends.of_only begun (by decide)).trans started).trans popover
  · rw [heq]
    exact .of_only (unmarked_only e n fault) (by decide)

/-- A click that chooses an element is undercut exactly if releasing the selection makes that preformatted. -/
theorem undercut_iff {target : NodeId} (h : e.Chooses target n) :
    e.Undercut (.operate (.event (.click target))) ↔
      Editability.isPreformatted (e.endEdit true).releaseSelection.page n = true := by
  constructor
  · rintro ⟨target', n', hx, hn, undercut⟩
    cases hx
    cases h.identified.symm.trans hn.identified
    exact undercut
  · intro undercut
    exact ⟨target, n, rfl, h, undercut⟩

/-- All messages of a click are fair. -/
theorem sends_click (e : HeadlessEditor) (target : NodeId) :
    Sends (Fair (e.Undercut (.operate (.event (.click target))))) e (e.click target).1 := by
  have ended : Sends (Fair (e.Undercut (.operate (.event (.click target))))) e (e.endEdit true) :=
    sends_endEdit (fun m hm => fair_of_topic hm (by decide) (by decide)) true
  rcases click_cases e target with ⟨-, heq⟩ | ⟨heeds, heq | ⟨n, identified, heq⟩⟩
  · rw [heq]
    exact .refl e
  · rw [heq]
    have released := releaseSelection_only (e.endEdit true)
    refine (ended.trans (Sends.of_only released (by decide))).trans
      (sends_tell ⟨fun hm => ?_, fun ht => ?_⟩)
    · exact absurd rfl hm.2
    · rw [Envelope.topic?_ofNotice] at ht
      cases ht
  · rw [heq]
    refine ended.trans ?_
    rcases clickElement_of_session_none (session_endEdit e true) n with ⟨-, hclick⟩ | ⟨editable, hclick⟩
    · rw [hclick]
      exact .of_only ((metadata_only _ n).trans (log_only _ _ _ _)) (by decide)
    · rw [propext (undercut_iff ⟨heeds, identified, editable⟩)]
      have chosen := sends_chosen (e.endEdit true) n
      rcases hclick with hclick | ⟨tag, hclick⟩
      · rw [hclick]
        exact chosen
      · have sameTag : Page.tagName ((e.endEdit true).chosen n).page n =
            Page.tagName (e.endEdit true).page n :=
          Document.tagName_of_sameTree ((chosen_only _ n).sameTree (by decide)) n
        have begun := sends_beginEdit ((e.endEdit true).chosen n) n (sameTag ▸ tag)
        rw [(sameLooks_chosen (e.endEdit true) n).isPreformatted_eq n] at begun
        rw [hclick]
        exact chosen.trans begun

/-- No command offers an element. -/
theorem sends_handleCommand (e : HeadlessEditor) (c : Command) :
    Sends (fun m => m.topic? ≠ some .selection) e (e.handleCommand c).1 := by
  have logged : e.state.selected? = none → ∀ level message fields,
      Sends (fun m => m.topic? ≠ some .selection) e (e.log level message fields) :=
    fun _ _ _ _ => .of_only (log_only e _ _ _) (by decide)
  cases c with
  | setMode m =>
    refine setMode_induction m (.refl e) ?_ (fun _ => .of_told (enable_only e) (by decide))
      (fun _ => .of_told (leaveSaving_only e) (by decide))
      (fun _ => .of_told (enterSaving_only e) (by decide))
      fun _ => .of_told (disable_only e) (by decide)
    intro e' level message fields h
    exact h.trans (.of_only (log_only e' level message fields) (by decide))
  | updateText text =>
    exact withSelected_induction _ logged fun n _ => .of_only (updateText_only e n text) (by decide)
  | updateStyles styles =>
    exact withSelected_induction _ logged fun n _ => .of_only (updateStyles_only e n styles) (by decide)
  | updateClasses changes =>
    exact withSelected_induction _ logged fun n _ =>
      .of_only (updateClasses_only e n changes) (by decide)
  | deleteElement =>
    exact withSelected_induction _ logged fun n _ => .of_told (deleteElement_only e n) (by decide)
  | clearSelection => exact .of_told (clearSelection_only e) (by decide)

/-- Nor does an event that is no click. -/
theorem sends_handleEvent {ev : PageEvent NodeId} (hev : ∀ target, ev ≠ .click target) :
    Sends (fun m => m.topic? ≠ some .selection) e (e.handleEvent ev).1 := by
  cases ev with
  | click target => exact absurd rfl (hev target)
  | submit target => exact .refl e
  | keyDown key => exact .of_told (keyDown_only e key) (by decide)
  | pointerOver target => exact .of_told (pointerOver_only e target) (by decide)
  | scroll => exact .of_told (clearHover_only e true) (by decide)
  | input element => exact .of_told (input_only e element) (by decide)
  | blur element =>
    rw [handleEvent_blur]
    split
    · exact .of_told (endEdit_only e true) (by decide)
    · exact .refl e
  | editKeyDown element key =>
    rw [handleEvent_editKeyDown]
    split
    · exact .of_told (endEdit_only e false) (by decide)
    · exact .refl e

/-- Nothing but a click offers an element. -/
theorem sends_step {x : Step} (hx : ∀ target, x ≠ .operate (.event (.click target))) :
    Sends (fun m => m.topic? ≠ some .selection) e (e.step x) := by
  cases x with
  | page x => exact .of_only (edit_only e x) (by simp)
  | clock time => exact .of_only (clock_only e time) (by decide)
  | channel failing => exact .of_only (channel_only e failing) (by decide)
  | operate o =>
    cases o with
    | contentChanged => exact .of_told (contentChanged_only e) (by decide)
    | receive data fromParent =>
      exact receive_induction data fromParent
        (fun level message fields => .of_only (log_only e level message fields) (by decide)) (sends_handleCommand e)
    | command c => exact sends_handleCommand e c
    | setMode m => exact sends_handleCommand e (.setMode m)
    | startEdit n => exact .of_told (startEdit_only e n) (by decide)
    | endEdit commit => exact .of_told (endEdit_only e commit) (by decide)
    | event ev => exact sends_handleEvent fun target same => hx target (by rw [same])

/-! ## Selections -/

/-- A click that is the editor's and finds an element is a click on that element. -/
theorem click_of_identified {target : NodeId} (heeds : e.heeds target = true)
    (identified : (e.endEdit true).identified? target = some n) :
    (e.click target).1 = (e.endEdit true).clickElement n := by
  simp only [Editor.heeds, Bool.and_eq_true, Bool.not_eq_true'] at heeds
  simp [click, heeds, identified]

/-- A click that chooses an element selects it, and then the element is preformatted exactly if the click was
undercut. What it begins to edit is that element. -/
theorem click_of_chooses {target : NodeId} (h : e.Chooses target n) :
    (e.click target).1.state.selected? = some n ∧
      (Editability.isPreformatted (e.click target).1.page n = true ↔
        e.Undercut (.operate (.event (.click target)))) ∧
      ∀ s, (e.click target).1.state.session = some s → s.element = n := by
  have idle := session_endEdit e true
  have looks : SameLooks (e.endEdit true).releaseSelection (e.click target).1 ∧
      (e.click target).1.state.selected? = some n := by
    rw [click_of_identified h.heeds h.identified]
    have chosen := sameLooks_chosen (e.endEdit true) n
    rcases clickElement_of_session_none idle n with ⟨preformatted, -⟩ | ⟨-, hclick | ⟨-, hclick⟩⟩
    · exact absurd (h.editable.symm.trans preformatted) (by decide)
    · rw [hclick]
      exact ⟨chosen, selected?_chosen _ n⟩
    · rw [hclick]
      exact ⟨chosen.trans (sameLooks_beginEdit _ n),
        ((beginEdit_only _ n).selected?_eq (by decide)).trans (selected?_chosen _ n)⟩
  refine ⟨looks.2, ?_, ?_⟩
  · rw [looks.1.isPreformatted_eq, undercut_iff h]
  · intro s hs
    rw [click_of_identified h.heeds h.identified] at hs
    have selected := session_clickElement idle hs
    rw [← click_of_identified h.heeds h.identified, looks.2] at selected
    exact (Option.some.inj selected).symm

/-- A click that chooses nothing selects nothing and begins no edit. -/
theorem click_of_not_chooses {target : NodeId} (h : ∀ n, ¬ e.Chooses target n) :
    ((e.click target).1.state.selection = e.state.selection ∨
        (e.click target).1.state.selection = none) ∧
      ((e.click target).1.state.session = e.state.session ∨ (e.click target).1.state.session = none) := by
  have idle := session_endEdit e true
  rcases click_cases e target with ⟨-, heq⟩ | ⟨heeds, heq | ⟨n, identified, heq⟩⟩
  · rw [heq]
    exact ⟨.inl rfl, .inl rfl⟩
  · rw [heq, tell_state]
    exact ⟨.inr (selection_releaseSelection _),
      .inr (((releaseSelection_only _).session_eq (by decide)).trans idle)⟩
  · rw [heq]
    rcases clickElement_of_session_none idle n with ⟨-, hclick⟩ | ⟨editable, -⟩
    · have looked := (metadata_only (e.endEdit true) n).trans
        (log_only _ .trace "Clicked element is not editable" [])
      have ended := (endEdit_only e true).selection_eq (by decide)
      rw [hclick]
      exact ⟨.inl ((looked.selection_eq (by decide)).trans ended),
        .inr ((looked.session_eq (by decide)).trans idle)⟩
    · exact absurd ⟨heeds, identified, editable⟩ (h n)

end

/-! ## Runs -/

/-- What a step of a run offers to the host is editable exactly if the step is not an undercut click, and the
same holds of an edit that a click begins. A click selects what it chooses and begins to edit nothing else,
and after it that is preformatted exactly if the click was undercut. -/
theorem offers_run (d : Document) (config : EditorConfig) (time : String) (xs : List Step) (x : Step) :
    let e := (new d config time).run xs
    let e' := (new d config time).run (xs ++ [x])
    Sends (fun m => (m.IsOffer → (m.OffersStyles ↔ ¬ e.Undercut x)) ∧
      ∀ target, x = .operate (.event (.click target)) → m.topic? = some .editStarted →
        (m.OffersText ↔ ¬ e.Undercut x)) e e' ∧
    ∀ target, x = .operate (.event (.click target)) →
      (∀ n, e.Chooses target n → e'.state.selected? = some n ∧
        (Editability.isPreformatted e'.page n = true ↔ e.Undercut x) ∧
        ∀ s, e'.state.session = some s → s.element = n) ∧
      ((∀ n, ¬ e.Chooses target n) →
        (e'.state.selection = e.state.selection ∨ e'.state.selection = none) ∧
        (e'.state.session = e.state.session ∨ e'.state.session = none)) := by
  intro e e'
  have last : e' = e.step x := run_append _ xs [x]
  rw [last]
  -- only a click makes an offer, every other step repeats none
  by_cases hx : ∃ target, x = .operate (.event (.click target))
  · obtain ⟨target, rfl⟩ := hx
    refine ⟨(sends_click e target).mono fun m fair => ⟨fair.styles, fun _ _ => fair.text⟩, ?_⟩
    intro target' heq
    cases heq
    exact ⟨fun n h => click_of_chooses h, click_of_not_chooses⟩
  · have other : ∀ target, x ≠ .operate (.event (.click target)) := fun target heq => hx ⟨target, heq⟩
    refine ⟨(sends_step other).mono fun m hm => ⟨fun h => absurd h.1 hm, ?_⟩, ?_⟩
    · exact fun target heq => absurd heq (other target)
    · exact fun target heq => absurd heq (other target)

/-- The page sets the white space of a selected section to one that is kept, and the host tries out another
value on it. -/
def previewing : List Step :=
  [.page (.appendIdentified 0 "section" "a.tsx:1:0"), .page (.appendIdentified 1 "p" "a.tsx:2:2"),
    .page (.appendText 2 "Hello"), .operate (.setMode .enabled), .operate (.event (.click 1)),
    .page (.setComputedStyle 1 "whiteSpace" "pre"),
    .operate (.command (.updateStyles [("whiteSpace", "normal")]))]

theorem undercut_previewing :
    ((new .empty {} "").run previewing).Undercut (.operate (.event (.click 2))) :=
  ⟨2, 2, rfl, ⟨by decide +kernel, by decide +kernel, by decide +kernel⟩, by decide +kernel⟩

/-- A click on a paragraph in that section is undercut, and what it offers may not be edited. -/
theorem offers_run_previewing :
    Sends (fun m => (m.IsOffer → ¬ m.OffersStyles) ∧ (m.topic? = some .editStarted → ¬ m.OffersText))
      ((new .empty {} "").run previewing)
      ((new .empty {} "").run (previewing ++ [.operate (.event (.click 2))])) := by
  have undercut := undercut_previewing
  refine (offers_run .empty {} "" previewing (.operate (.event (.click 2)))).1.mono ?_
  rintro m ⟨styles, text⟩
  exact ⟨fun h hs => (styles h).1 hs undercut, fun h ht => (text 2 rfl h).1 ht undercut⟩

/-- That click does offer the paragraph and begins to edit it, preformatted as it is. -/
theorem offers_preformatted :
    let e := (new .empty {} "").run (previewing ++ [.operate (.event (.click 2))])
    (∃ m ∈ e.page.outbox.sent, m.IsOffer ∧ ¬ m.OffersStyles) ∧
      (∃ m ∈ e.page.outbox.sent, m.topic? = some .editStarted ∧ ¬ m.OffersText) ∧
      e.state.selected? = some 2 ∧ e.state.editing? = some 2 ∧
      Editability.isPreformatted e.page 2 = true := by
  intro e
  have count : e.page.outbox.sent.length = 5 := by decide +kernel
  refine ⟨⟨e.page.outbox.sent[2], List.getElem_mem _, ⟨rfl, ?_⟩, ?_⟩,
    ⟨e.page.outbox.sent[3], List.getElem_mem _, rfl, ?_⟩,
    by decide +kernel, by decide +kernel, by decide +kernel⟩
  · intro h
    have object : Json.isObject .null = true := h ▸ rfl
    cases object
  · intro h
    have styles : some (Json.bool false) = some (.bool true) := h ▸ rfl
    cases styles
  · intro h
    have text : some (Json.bool false) = some (.bool true) := h ▸ rfl
    cases text

end Editor

end InPlace

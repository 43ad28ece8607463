import InPlace.Proofs.Editing.Cancelling
import InPlace.Proofs.Editing.Offers
import InPlace.Proofs.Editing.References
import InPlace.Proofs.Headless.Declarations

/-!
# Inline styles under the editor

The editor writes inline styles in two places. The host tries styles out on the selected element, and when the
selection is released, the element is given the style again that its attribute read when it was selected. Every other
piece of the operations leaves all inline styles alone. So an operation does one of five things (`Restyling`): it keeps
the selection and all styles, it tries out a style, it releases the selection, it releases the selection and selects an
element, or it deletes the selected element with the style that it has. An edit of the page leaves the selection alone.

Main statement: `restyling_step`.
-/

namespace InPlace

open Headless (Document PageEdit)
open Headless.PageEdit (sameStyle_apply)

namespace Editor

/-- All inline styles are the same in the documents of two editors. -/
def SameStyles (e e' : HeadlessEditor) : Prop :=
  ∀ n, Document.SameStyle n e.page.document e'.page.document

section

variable {e e' e'' : HeadlessEditor} {as : List Aspect}

theorem SameStyles.refl (e : HeadlessEditor) : SameStyles e e :=
  fun n => .refl n _

theorem SameStyles.trans (h : SameStyles e e') (h' : SameStyles e' e'') : SameStyles e e'' :=
  fun n => (h n).trans (h' n)

theorem sameStyles_of_nodes (h : e'.page.document.nodes = e.page.document.nodes) : SameStyles e e' :=
  fun _ => Document.sameStyle_of_nodes h

theorem sameStyles_of_document (h : e'.page.document = e.page.document) : SameStyles e e' :=
  sameStyles_of_nodes (congrArg Document.nodes h)

/-- What changes the document as an edit of the page does that writes no style. -/
theorem sameStyles_of_apply (x : PageEdit) (h : e'.page.document = x.apply e.page.document)
    (hx : ∀ n, ¬ x.Restyles n) : SameStyles e e' := by
  intro n
  rw [h]
  exact sameStyle_apply (hx n)

/-- What does not show in the looks shows in no style. -/
theorem SameLooks.sameStyles (h : SameLooks e e') (ha : Only as e e') (hs : .page (.attr "style") ∉ as) :
    SameStyles e e' :=
  fun n => Document.SameLooks.sameStyle h (ha.attribute?_eq hs n)

theorem sameStyles_foldl {α : Type} {f : HeadlessEditor → α → HeadlessEditor}
    (h : ∀ e a, SameStyles e (f e a)) (xs : List α) (e : HeadlessEditor) : SameStyles e (xs.foldl f e) := by
  induction xs generalizing e with
  | nil => exact .refl e
  | cons x xs ih => exact (h e x).trans (ih (f e x))

end

/-! ## The pieces of the operations -/

section

variable (e : HeadlessEditor) (n : NodeId)

theorem sameStyles_log (level : LogLevel) (message : String) (fields : List (String × String)) :
    SameStyles e (e.log level message fields) :=
  .refl e

theorem sameStyles_tell (k : Notice) : SameStyles e (e.tell k) :=
  sameStyles_of_document (document_tell e k)

theorem sameStyles_metadata : SameStyles e (e.metadata n).2 :=
  sameStyles_of_document (document_metadata e n)

theorem sameStyles_setAttribute {name : String} (h : name ≠ "style") (value failure : String) :
    SameStyles e (e.setAttribute n name value failure) :=
  sameStyles_of_apply (.setAttribute n name value) (document_setAttribute e n name value failure)
    fun _ hx => h (hx.resolve_left id).2

theorem sameStyles_removeAttribute {name : String} (h : name ≠ "style") :
    SameStyles e (e.removeAttribute n name) :=
  sameStyles_of_apply (.removeAttribute n name) rfl fun _ hx => h (hx.resolve_left id).2

theorem sameStyles_setBodyAttribute {name : String} (h : name ≠ "style") (value : Option String) :
    SameStyles e (e.setBodyAttribute name value) :=
  sameStyles_of_apply (.setBodyAttribute name value) rfl fun _ hx => h (hx.resolve_right id).2

theorem sameStyles_setTextContent (s : String) :
    SameStyles e { e with page := Page.setTextContent e.page n s } :=
  sameStyles_of_apply (.setTextContent n s) rfl fun _ hx => hx.elim id id

theorem sameStyles_unhover : SameStyles e (e.unhover n) := by
  have unmarked := sameStyles_removeAttribute { e with state := { e.state with hover := none } } n
    (show Overlay.hoveredAttribute ≠ "style" by decide)
  exact unmarked.trans (sameStyles_removeAttribute _ n (by decide))

theorem sameStyles_clearHover (notify : Bool) : SameStyles e (e.clearHover notify) := by
  rcases clearHover_cases e notify with ⟨-, heq⟩ | ⟨n, heq | heq⟩
  · rw [heq]
    exact .refl e
  · rw [heq]
    exact sameStyles_unhover e n
  · rw [heq]
    exact (sameStyles_unhover e n).trans (sameStyles_tell _ _)

theorem sameStyles_hoverElement : SameStyles e (e.hoverElement n) := by
  have marked : ∀ e : HeadlessEditor, SameStyles e (e.markHovered n) := by
    intro e
    have hovered := sameStyles_setAttribute e n (show Overlay.hoveredAttribute ≠ "style" by decide) "true"
      "Failed to mark hovered element"
    unfold markHovered
    dsimp only
    split
    · exact hovered.trans (sameStyles_setAttribute _ n (by decide) _ _)
    · exact hovered.trans (sameStyles_removeAttribute _ n (by decide))
  unfold hoverElement
  exact ((sameStyles_clearHover e false).trans (marked _)).trans
    (sameStyles_of_document (document_tellAbout _ n false _))

theorem sameStyles_unlistenTo : SameStyles e (e.unlistenTo n) :=
  sameStyles_of_nodes (Forest.foldl_reading (r := fun page : Headless => page.document.nodes)
    (g := fun page l => Page.unlistenTo page n l) (fun _ _ => rfl) ElementEvent.all e.page)

/-- To end an edit leaves all styles. -/
theorem sameStyles_endEdit (commit : Bool) : SameStyles e (e.endEdit commit) := by
  cases hs : e.state.session with
  | none =>
    rw [endEdit_of_none hs]
    exact .refl e
  | some s =>
    have settled : SameStyles e (e.settleText s commit) := by
      cases commit with
      | true => exact .refl e
      | false => exact sameStyles_setTextContent e s.element s.openingText
    have unmarked := ((settled.trans (sameStyles_removeAttribute _ s.element
      (show Overlay.editableAttribute ≠ "style" by decide))).trans
        (sameStyles_removeAttribute _ s.element (show Overlay.editingAttribute ≠ "style" by decide))).trans
          (sameStyles_unlistenTo _ s.element)
    rw [endEdit_of_some hs]
    exact (unmarked.trans (sameStyles_log _ _ _ _)).trans (sameStyles_tell _ _)

theorem sameStyles_beginEdit : SameStyles e (e.beginEdit n) :=
  (sameLooks_beginEdit e n).sameStyles (beginEdit_only e n) (by decide)

theorem sameStyles_listen : SameStyles e e.listen := by
  unfold listen
  split
  · exact .refl e
  · exact sameStyles_of_nodes (Forest.foldl_reading (r := fun e : HeadlessEditor => e.page.document.nodes)
      (g := fun e l => e.tryPage (fun page => Page.listen page l) "Failed to add listener" [("event", l.name)])
      (fun _ _ => rfl) DocumentEvent.all e)

theorem sameStyles_unlisten : SameStyles e e.unlisten := by
  unfold unlisten
  split
  · exact sameStyles_of_nodes (Forest.foldl_reading (r := fun page : Headless => page.document.nodes)
      (g := fun page l => Page.unlisten page l) (fun _ _ => rfl) DocumentEvent.all e.page)
  · exact .refl e

theorem sameStyles_setBodyCursor (cursor : Option String) : SameStyles e (e.setBodyCursor cursor) :=
  sameStyles_of_nodes rfl

theorem sameStyles_injectStylesheet (id css : String) : SameStyles e (e.injectStylesheet id css) :=
  sameStyles_of_nodes rfl

theorem sameStyles_fitOut : SameStyles e e.fitOut := by
  have heard := (sameStyles_injectStylesheet e Overlay.stylesId Overlay.styles).trans (sameStyles_listen _)
  have pointed := heard.trans (sameStyles_setBodyCursor _
    (some (e.injectStylesheet Overlay.stylesId Overlay.styles).listen.config.cursor))
  have shown := pointed.trans (sameStyles_setBodyAttribute _ (show Overlay.savingAttribute ≠ "style" by decide) none)
  exact shown.trans (sameStyles_injectStylesheet _ Overlay.scrollId Overlay.scrollStyles)

theorem sameStyles_hush : SameStyles e e.hush :=
  ((sameStyles_unlisten e).trans (sameStyles_setBodyCursor _ none)).trans
    (sameStyles_setBodyAttribute _ (show Overlay.savingAttribute ≠ "style" by decide) none)

theorem sameStyles_strip : SameStyles e e.strip :=
  sameStyles_of_nodes rfl

theorem sameStyles_enter (m : EditMode) : SameStyles e (e.enter m) :=
  sameStyles_tell { e with state := { e.state with mode := m } } _

theorem sameStyles_updateClasses (changes : ClassChanges) : SameStyles e (e.updateClasses n changes) := by
  have removed : ∀ (e : HeadlessEditor) (c : String), SameStyles e
      (e.tryPage (fun page => Page.removeClass page n c) "Failed to remove class" [("class", c)]) :=
    fun e c => sameStyles_of_apply (.removeClass n c) (document_tryPage e (fun d => d.removeClass n c) _ _)
      fun _ hx => hx.elim id id
  have added : ∀ (e : HeadlessEditor) (c : String), SameStyles e
      (e.tryPage (fun page => Page.addClass page n c) "Failed to add class" [("class", c)]) :=
    fun e c => sameStyles_of_apply (.addClass n c) (document_tryPage e (fun d => d.addClass n c) _ _)
      fun _ hx => hx.elim id id
  exact (sameStyles_foldl removed changes.remove e).trans (sameStyles_foldl added changes.add _)

theorem sameStyles_letGo : SameStyles e (e.letGo n) := by
  have ended := sameStyles_endEdit e false
  rcases letGo_cases e n with ⟨-, heq | heq⟩ | ⟨-, heq | heq⟩
  · rw [heq]
    exact ended
  · rw [heq]
    exact ended.trans (sameStyles_clearHover _ false)
  · rw [heq]
    exact .refl e
  · rw [heq]
    exact sameStyles_clearHover e false

theorem sameStyles_dropped {page : Headless} (h : Page.remove? e.page n = some page) :
    SameStyles e (e.dropped n page) := by
  obtain ⟨-, hd⟩ := remove?_eq_some h
  have removed : SameStyles e { e with page } := by
    refine sameStyles_of_apply (.remove n) ?_ fun _ hx => hx.elim id id
    show page.document = (e.page.document.remove? n).getD e.page.document
    rw [hd, Option.getD_some]
  exact removed.trans (sameStyles_removeAttribute { e with page } n (by decide))

theorem sameStyles_pointerOver : SameStyles e (e.pointerOver n) := by
  rcases pointerOver_cases e n with heq | ⟨-, heq | ⟨m, -, heq | heq⟩⟩
  · rw [heq]
    exact .refl e
  · rw [heq]
    exact sameStyles_clearHover e true
  · rw [heq]
    exact (sameStyles_metadata e m).trans (sameStyles_clearHover _ true)
  · rw [heq]
    exact (sameStyles_metadata e m).trans (sameStyles_hoverElement _ m)

theorem sameStyles_input : SameStyles e (e.input n) := by
  rcases input_cases e n with heq | ⟨s, -, -, heq⟩
  · rw [heq]
    exact .refl e
  · rw [heq]
    exact sameStyles_tell e _

/-- To choose an element changes the styles by what it releases, and no further. -/
theorem sameStyles_chosen : SameStyles e.releaseSelection (e.chosen n) :=
  fun m => Document.SameLooks.sameStyle (sameLooks_chosen e n) ((style_chosen e n).1 m)

end

/-! ## The end of a selection -/

/-- The selection and all inline styles are kept, and so are the elements. -/
structure Steady (e e' : HeadlessEditor) : Prop where
  selection : e'.state.selection = e.state.selection
  styles : SameStyles e e'
  elements : ∀ n, (e.page.document.element? n).isSome → (e'.page.document.element? n).isSome

/-- The element that is selected by the first editor has been given its style back, and nothing else has happened to
any style. -/
structure GivesBack (e e' : HeadlessEditor) : Prop where
  own : ∀ s, e.state.selection = some s → ∃ d : Document,
    (∀ n, (e.page.document.element? n).isSome → (d.element? n).isSome) ∧
      Document.SameStyle s.element (d.restyled s.element s.unmarkedStyle) e'.page.document
  others : ∀ n, e.state.selected? ≠ some n → Document.SameStyle n e.page.document e'.page.document

/-- The selection has been released, and nothing is selected. -/
structure Released (e e' : HeadlessEditor) : Prop extends GivesBack e e' where
  gone : e'.state.selection = none

/-- The selection has been released, and an element is selected with the style that it has. -/
structure Chosen (e : HeadlessEditor) (n : NodeId) (e' : HeadlessEditor) : Prop extends GivesBack e e' where
  there : (e'.page.document.element? n).isSome
  selection : e'.state.selection = some ⟨n, e'.page.document.attribute? n "style"⟩

section

variable {e e₁ e' : HeadlessEditor} {as : List Aspect} {n : NodeId}

theorem Steady.refl (e : HeadlessEditor) : Steady e e :=
  ⟨rfl, .refl e, fun _ h => h⟩

theorem Steady.trans (h : Steady e e₁) (h' : Steady e₁ e') : Steady e e' :=
  ⟨h'.selection.trans h.selection, h.styles.trans h'.styles, fun n hn => h'.elements n (h.elements n hn)⟩

theorem Steady.of_only (styles : SameStyles e e') (h : Only as e e') (ha : .selection ∉ as) : Steady e e' :=
  ⟨h.selection_eq ha, styles, h.elements⟩

theorem Steady.selected?_eq (h : Steady e e') : e'.state.selected? = e.state.selected? :=
  congrArg (Option.map Selection.element) h.selection

theorem GivesBack.andThen (h : GivesBack e e₁) (styles : SameStyles e₁ e') : GivesBack e e' where
  own s hs := by
    obtain ⟨d, elements, given⟩ := h.own s hs
    exact ⟨d, elements, given.trans (styles _)⟩
  others n hn := (h.others n hn).trans (styles n)

theorem Steady.givesBack (steady : Steady e e₁) (h : GivesBack e₁ e') : GivesBack e e' where
  own s hs := by
    obtain ⟨d, elements, given⟩ := h.own s (steady.selection.trans hs)
    exact ⟨d, fun n hn => elements n (steady.elements n hn), given⟩
  others n hn := (steady.styles n).trans (h.others n fun selected => hn (steady.selected?_eq.symm.trans selected))

theorem Released.andThen (h : Released e e₁) (steady : Steady e₁ e') : Released e e' :=
  ⟨h.toGivesBack.andThen steady.styles, steady.selection.trans h.gone⟩

theorem Steady.released (steady : Steady e e₁) (h : Released e₁ e') : Released e e' :=
  ⟨steady.givesBack h.toGivesBack, h.gone⟩

theorem Chosen.andThen (h : Chosen e n e₁) (steady : Steady e₁ e') : Chosen e n e' := by
  refine ⟨h.toGivesBack.andThen steady.styles, steady.elements n h.there, ?_⟩
  rw [steady.selection, h.selection, (steady.styles n).text]

theorem Steady.chosen (steady : Steady e e₁) (h : Chosen e₁ n e') : Chosen e n e' :=
  ⟨steady.givesBack h.toGivesBack, h.there, h.selection⟩

/-- A selection that is released has its style put back, and no other element is styled. -/
theorem released_releaseSelection (e : HeadlessEditor) : Released e e.releaseSelection where
  own s hs := by
    have bare := Document.removeAttribute_only e.page.document s.element Overlay.selectedAttribute
    refine ⟨_, bare.elements, ?_⟩
    rw [document_releaseSelection, hs, released_some]
    exact .refl _ _
  others n hn := by
    rw [document_releaseSelection]
    cases hs : e.state.selection with
    | none => exact .refl n _
    | some s =>
      have other : s.element ≠ n := fun h => hn (by rw [EditorState.selected?, hs, ← h]; rfl)
      have bare : Document.SameStyle n e.page.document
          (e.page.document.removeAttribute s.element Overlay.selectedAttribute) :=
        Headless.PageEdit.sameStyle_removeAttribute _ fun h => other h.1
      rw [released_some]
      exact bare.trans (Document.sameStyle_restyled_of_ne _ other s.unmarkedStyle)
  gone := selection_releaseSelection e

theorem chosen_chosen (there : (e.page.document.element? n).isSome) : Chosen e n (e.chosen n) := by
  obtain ⟨texts, selection⟩ := style_chosen e n
  refine ⟨(released_releaseSelection e).toGivesBack.andThen (sameStyles_chosen e n),
    (chosen_only e n).elements n there, ?_⟩
  rw [selection, texts n]

theorem steady_log (e : HeadlessEditor) (level : LogLevel) (message : String) (fields : List (String × String)) :
    Steady e (e.log level message fields) :=
  .of_only (.refl e) (log_only e level message fields) (by decide)

theorem steady_tell (e : HeadlessEditor) (k : Notice) : Steady e (e.tell k) :=
  .of_only (sameStyles_tell e k) (tell_only e k.topic rfl) (by simp)

theorem steady_metadata (e : HeadlessEditor) (n : NodeId) : Steady e (e.metadata n).2 :=
  .of_only (sameStyles_metadata e n) (metadata_only e n) (by decide)

theorem steady_clearHover (e : HeadlessEditor) (notify : Bool) : Steady e (e.clearHover notify) :=
  .of_only (sameStyles_clearHover e notify) (clearHover_only e notify) (by decide)

theorem steady_endEdit (e : HeadlessEditor) (commit : Bool) : Steady e (e.endEdit commit) :=
  .of_only (sameStyles_endEdit e commit) (endEdit_only e commit) (by decide)

theorem steady_beginEdit (e : HeadlessEditor) (n : NodeId) : Steady e (e.beginEdit n) :=
  .of_only (sameStyles_beginEdit e n) (beginEdit_only e n) (by decide)

theorem steady_enter (e : HeadlessEditor) (m : EditMode) : Steady e (e.enter m) :=
  .of_only (sameStyles_enter e m) (enter_only e m) (by simp)

theorem released_enterSaving (e : HeadlessEditor) : Released e e.enterSaving := by
  have held : Steady e (e.setBodyAttribute Overlay.savingAttribute (some "true")) :=
    .of_only (sameStyles_setBodyAttribute e (by decide) _) (setBodyAttribute_only e _ _) (by decide)
  have released := (held.trans (steady_endEdit _ false)).released (released_releaseSelection _)
  have saving : ∀ e : HeadlessEditor, Steady e { e with state := { e.state with mode := .saving } } :=
    fun _ => ⟨rfl, sameStyles_of_nodes rfl, fun _ h => h⟩
  exact released.andThen ((steady_clearHover _ false).trans (saving _))

/-- To be disabled styles no element but the one that was selected. -/
theorem released_disable (e : HeadlessEditor) : Released e e.disable := by
  have hushed : Steady e (e.endEdit false).hush :=
    (steady_endEdit e false).trans (.of_only (sameStyles_hush _) (hush_only _) (by decide))
  have stripped := fun e => Steady.of_only (sameStyles_strip e) (strip_only e) (by decide)
  rw [disable_eq]
  exact (hushed.released (released_releaseSelection _)).andThen
    (((steady_clearHover _ false).trans (stripped _)).trans (steady_enter _ .disabled))

/-- A click that chooses an element releases the selection before it selects the element. -/
theorem chosen_of_chooses {target : NodeId} (h : e.Chooses target n) : Chosen e n (e.click target).1 := by
  have chosen := (steady_endEdit e true).chosen (chosen_chosen (element?_of_identified? h.identified))
  rw [click_of_identified h.heeds h.identified]
  rcases clickElement_of_session_none (session_endEdit e true) n with ⟨preformatted, -⟩ | ⟨-, heq | ⟨-, heq⟩⟩
  · exact absurd (h.editable.symm.trans preformatted) (by decide)
  · rw [heq]
    exact chosen
  · rw [heq]
    exact chosen.andThen (steady_beginEdit _ n)

end

/-! ## Steps -/

/-- What a step does to the selection and to the inline styles. -/
inductive Restyling (e : HeadlessEditor) (x : Step) : Prop where
  | edited {y : PageEdit} (page : x = .page y) (selection : (e.step x).state.selection = e.state.selection)
      (others : ∀ n, ¬ y.Restyles n → Document.SameStyle n e.page.document (e.step x).page.document)
  | kept (steady : Steady e (e.step x))
  /-- The host tries out a style on the selected element. -/
  | tried {n : NodeId} {styles : List (String × String)} (selected : e.state.selected? = some n)
      (obeys : e.Obeys x (.updateStyles styles)) (selection : (e.step x).state.selection = e.state.selection)
      (others : ∀ m, m ≠ n → Document.SameStyle m e.page.document (e.step x).page.document)
  | released (released : Released e (e.step x))
  | chosen {target n : NodeId} (click : x = .operate (.event (.click target))) (chooses : e.Chooses target n)
      (chosen : Chosen e n (e.step x))
  | deleted (obeys : e.Obeys x .deleteElement) (gone : (e.step x).state.selection = none)
      (styles : SameStyles e (e.step x))

section

variable {e e' : HeadlessEditor} {x : Step} {c : Command} {n target : NodeId}

theorem restyling_of_steady (heq : e.step x = e') (steady : Steady e e') : Restyling e x :=
  .kept (heq ▸ steady)

theorem restyling_of_released (heq : e.step x = e') (h : Released e e') : Restyling e x :=
  .released (heq ▸ h)

/-- A change of mode keeps the selection or releases it. -/
theorem restyling_of_setMode {m : EditMode} (heq : e.step x = (e.setMode m).1) : Restyling e x := by
  obtain ⟨e', level, message, fields, hlog, hcases⟩ := setMode_cases e m
  have logged := steady_log e' level message fields
  rw [hlog] at heq
  rcases hcases with ⟨-, -, rfl⟩ | ⟨-, -, rfl⟩ | ⟨-, -, rfl⟩ | ⟨-, -, rfl⟩ | ⟨-, rfl⟩
  · have fitted : Steady e e.fitOut := .of_only (sameStyles_fitOut e) (fitOut_only e) (by decide)
    exact restyling_of_steady heq ((fitted.trans (steady_enter _ .enabled)).trans logged)
  · have shown : Steady e (e.setBodyAttribute Overlay.savingAttribute none) :=
      .of_only (sameStyles_setBodyAttribute e (by decide) none) (setBodyAttribute_only e _ none) (by decide)
    exact restyling_of_steady heq ((shown.trans (steady_enter _ .enabled)).trans logged)
  · exact restyling_of_released heq ((released_enterSaving e).andThen logged)
  · exact restyling_of_released heq ((released_disable e).andThen logged)
  · exact restyling_of_steady heq logged

/-- A deletion takes the selection away with the element, or is ignored. -/
theorem deleteElement_styles (e : HeadlessEditor) (n : NodeId) : Steady e (e.deleteElement n).1 ∨
    (e.deleteElement n).1.state.selection = none ∧ SameStyles e (e.deleteElement n).1 := by
  have letGo : Steady e (e.letGo n) := .of_only (sameStyles_letGo e n) (letGo_only e n) (by decide)
  rcases deleteElement_cases e n with heq | ⟨page, hp, heq⟩
  · rw [heq]
    exact .inl (letGo.trans (steady_log _ _ _ _))
  · rw [heq]
    exact .inr ⟨rfl, letGo.styles.trans (sameStyles_dropped _ n hp)⟩

/-- A style that is tried out is a style of the selected element. -/
theorem updateStyles_others (e : HeadlessEditor) (n : NodeId) (styles : List (String × String)) {m : NodeId}
    (hm : m ≠ n) : Document.SameStyle m e.page.document (e.updateStyles n styles).page.document := by
  unfold updateStyles
  induction styles generalizing e with
  | nil => exact .refl m _
  | cons s styles ih =>
    have first : Document.SameStyle m e.page.document
        (e.tryPage (fun page => Page.setStyle page n s.1 s.2) "Failed to apply style"
          [("property", s.1)]).page.document := by
      have applied : (e.tryPage (fun page => Page.setStyle page n s.1 s.2) "Failed to apply style"
          [("property", s.1)]).page.document = (PageEdit.setStyle n s.1 s.2).apply e.page.document :=
        document_tryPage e (fun d => d.setStyle n s.1 s.2) _ _
      rw [applied]
      exact sameStyle_apply fun hx => hm (hx.resolve_right id).symm
    exact first.trans (ih _)

/-- A command styles what it says. -/
theorem restyling_of_obeys (h : e.Obeys x c) : Restyling e x := by
  have heq := step_of_obeys h
  have logged : e.state.selected? = none → ∀ level message fields,
      e.step x = e.log level message fields → Restyling e x :=
    fun _ _ _ _ heq => restyling_of_steady heq (steady_log e _ _ _)
  cases c with
  | setMode m => exact restyling_of_setMode heq
  | updateText text =>
    refine withSelected_induction (P := fun e' => e.step x = e' → Restyling e x) _ logged ?_ heq
    intro n _ heq
    exact restyling_of_steady heq
      (.of_only (sameStyles_setTextContent e n text) (updateText_only e n text) (by decide))
  | updateStyles styles =>
    refine withSelected_induction (P := fun e' => e.step x = e' → Restyling e x) _ logged ?_ heq
    intro n hn heq
    -- of the commands only this one writes styles, those of the selected element
    refine .tried hn h ?_ fun m hm => ?_
    · rw [heq]
      exact (updateStyles_only e n styles).selection_eq (by decide)
    · rw [heq]
      exact updateStyles_others e n styles hm
  | updateClasses changes =>
    refine withSelected_induction (P := fun e' => e.step x = e' → Restyling e x) _ logged ?_ heq
    intro n _ heq
    exact restyling_of_steady heq
      (.of_only (sameStyles_updateClasses e n changes) (updateClasses_only e n changes) (by decide))
  | deleteElement =>
    refine withSelected_induction (P := fun e' => e.step x = e' → Restyling e x) _ logged ?_ heq
    intro n _ heq
    rcases deleteElement_styles e n with steady | ⟨gone, styles⟩
    · exact restyling_of_steady heq steady
    · exact .deleted h (heq ▸ gone) (heq ▸ styles)
  | clearSelection =>
    have released := (steady_endEdit e false).released (released_releaseSelection _)
    exact restyling_of_released heq (released.andThen (steady_tell _ .selectionCleared))

theorem restyling_of_click (e : HeadlessEditor) (target : NodeId) :
    Restyling e (.operate (.event (.click target))) := by
  have ended := steady_endEdit e true
  rcases click_cases e target with ⟨-, heq⟩ | ⟨heeds, heq | ⟨n, identified, heq⟩⟩
  · exact restyling_of_steady heq (.refl e)
  · have released := ended.released (released_releaseSelection _)
    exact restyling_of_released heq (released.andThen (steady_tell _ _))
  · rcases clickElement_of_session_none (session_endEdit e true) n with ⟨-, hclick⟩ | ⟨editable, -⟩
    · have looked := (ended.trans (steady_metadata _ n)).trans
        (steady_log _ .trace "Clicked element is not editable" [])
      exact restyling_of_steady (heq.trans hclick) looked
    · have chooses : e.Chooses target n := ⟨heeds, identified, editable⟩
      exact .chosen rfl chooses (chosen_of_chooses chooses)

/-- An event styles no element but the one that was selected. -/
theorem restyling_of_event (e : HeadlessEditor) (ev : PageEvent NodeId) :
    Restyling e (.operate (.event ev)) := by
  cases ev with
  | click target => exact restyling_of_click e target
  | submit target => exact .kept (.refl e)
  | keyDown key =>
    rcases keyDown_cases e key with heq | ⟨-, heq⟩
    · exact restyling_of_steady heq (.refl e)
    · exact restyling_of_released heq
        ((released_releaseSelection e).andThen ((steady_clearHover _ true).trans (steady_tell _ _)))
  | pointerOver target =>
    exact .kept (.of_only (sameStyles_pointerOver e target) (pointerOver_only e target) (by decide))
  | scroll => exact .kept (steady_clearHover e true)
  | input element => exact .kept (.of_only (sameStyles_input e element) (input_only e element) (by decide))
  | blur element =>
    refine restyling_of_steady (handleEvent_blur e element) ?_
    split
    · exact steady_endEdit e true
    · exact .refl e
  | editKeyDown element key =>
    refine restyling_of_steady (handleEvent_editKeyDown e element key) ?_
    split
    · exact steady_endEdit e false
    · exact .refl e

/-- Every step does one of these things. -/
theorem restyling_step (e : HeadlessEditor) (x : Step) : Restyling e x := by
  cases x with
  | page y => exact .edited rfl rfl fun _ hy => sameStyle_apply hy
  | clock time => exact .kept (.of_only (.refl e) (clock_only e time) (by decide))
  | channel failing => exact .kept (.of_only (.refl e) (channel_only e failing) (by decide))
  | operate o =>
    cases o with
    | contentChanged =>
      have same := sameStyles_of_document (document_contentChanged e)
      exact .kept (.of_only same (contentChanged_only e) (by decide))
    | receive data fromParent =>
      rcases receive_cases e data fromParent with ⟨-, level, message, fields, -, heq⟩ | ⟨c, hc, -⟩
      · exact restyling_of_steady heq (steady_log e level message fields)
      · exact restyling_of_obeys hc
    | command c => exact restyling_of_obeys (c := c) rfl
    | setMode m => exact restyling_of_setMode rfl
    | event ev => exact restyling_of_event e ev
    | startEdit n =>
      refine .kept ?_
      show Steady e (e.startEdit n)
      unfold startEdit
      split
      · exact .refl e
      · exact (steady_endEdit e false).trans (steady_beginEdit _ n)
    | endEdit commit => exact .kept (steady_endEdit e commit)

end

end Editor

end InPlace

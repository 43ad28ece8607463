import InPlace.Proofs.Editing.References
import InPlace.Proofs.Editing.Sessions
import InPlace.Proofs.Headless.Walks

/-!
# What the editor writes

Whatever the editor does to its document it does by edits that a page could make as well, one after another. Of these it
uses no edit that makes a node or moves one, but for two: it takes a selected element out, and it puts a text in place of
what is inside of an element that is selected or edited (`Writes`). Such edits fit the document that they are made to,
since what is selected or edited is an element of it.

Main statements: `writes_operate`, `holdsElements_step` and `exists_edits_step`.
-/

namespace InPlace

open Headless (Document PageEdit)
open Headless.PageEdit (orSame)

namespace Headless.PageEdit

variable {Q : NodeId → Prop} {x : PageEdit} {d : Document}

/-- An edit that makes no node and moves none, except that it may take one out, or put a text into one where `Q` holds. -/
def Meek (Q : NodeId → Prop) : PageEdit → Prop
  | createElement _ | appendElement _ _ | appendIdentified _ _ _ | appendText _ _ | appendChild _ _ => False
  | setTextContent n _ => Q n
  | _ => True

/-- A meek edit fits the document if what it may touch is there. -/
theorem Meek.fits (hx : x.Meek Q) (hQ : ∀ n, Q n → (d.element? n).isSome) :
    x.Fits d ∧ ∀ n ∈ x.parents, (d.element? n).isSome := by
  cases x with
  | setTextContent n s =>
    have element := hQ n hx
    obtain ⟨e, he⟩ := Option.isSome_iff_exists.1 element
    refine ⟨⟨fun m hm => ?_, rfl⟩, fun m hm => ?_⟩
    · rw [List.mem_singleton.1 hm]
      exact Forest.lt_fresh_of_content? (Document.content?_of_element? he)
    · rw [parents] at hm
      split at hm
      · cases hm
      · rw [List.mem_singleton.1 hm]
        exact element
  | createElement _ | appendElement _ _ | appendIdentified _ _ _ | appendText _ _ | appendChild _ _ => exact hx.elim
  | _ => exact ⟨⟨fun _ hm => absurd hm List.not_mem_nil, rfl⟩, fun _ hm => absurd hm List.not_mem_nil⟩

/-- Meek edits of elements fit one after another. -/
theorem allFit_of_meek {xs : List PageEdit} (hxs : ∀ x ∈ xs, x.Meek Q) (hQ : ∀ n, Q n → (d.element? n).isSome) :
    d.AllFit xs ∧ d.UsesElements xs := by
  induction xs generalizing d with
  | nil => exact ⟨trivial, trivial⟩
  | cons x xs ih =>
    obtain ⟨fits, elements⟩ := (hxs x List.mem_cons_self).fits hQ
    obtain ⟨allFit, uses⟩ := ih (d := x.apply d) (fun y hy => hxs y (List.mem_cons_of_mem x hy))
      fun n hn => (x.apply_only d).elements n (hQ n hn)
    exact ⟨⟨fits, allFit⟩, elements, uses⟩

end Headless.PageEdit

namespace Editor

variable {Q : NodeId → Prop} {e e₁ e' : HeadlessEditor} {n : NodeId}

/-- The document has been changed by meek edits. -/
def Writes (Q : NodeId → Prop) (e e' : HeadlessEditor) : Prop :=
  ∃ xs : List PageEdit, (∀ x ∈ xs, x.Meek Q) ∧ e'.page.document = e.page.document.edited xs

namespace Writes

theorem of_document (h : e'.page.document = e.page.document) : Writes Q e e' :=
  ⟨[], nofun, h⟩

theorem refl (e : HeadlessEditor) : Writes Q e e :=
  .of_document rfl

theorem trans (h : Writes Q e e₁) (h' : Writes Q e₁ e') : Writes Q e e' := by
  obtain ⟨xs, meek, heq⟩ := h
  obtain ⟨ys, meek', heq'⟩ := h'
  refine ⟨xs ++ ys, fun x hx => ?_, ?_⟩
  · exact (List.mem_append.1 hx).elim (meek x) (meek' x)
  · rw [heq', heq, Document.edited_append]

theorem of_apply (x : PageEdit) (hx : x.Meek Q) (h : e'.page.document = x.apply e.page.document) : Writes Q e e' :=
  ⟨[x], fun _ hy => List.mem_singleton.1 hy ▸ hx, h⟩

theorem foldl {α : Type} {f : HeadlessEditor → α → HeadlessEditor} (h : ∀ e a, Writes Q e (f e a)) (as : List α)
    (e : HeadlessEditor) : Writes Q e (as.foldl f e) := by
  induction as generalizing e with
  | nil => exact .refl e
  | cons a as ih => exact (h e a).trans (ih (f e a))

end Writes

/-! ## Single changes -/

theorem writes_tell (k : Notice) : Writes Q e (e.tell k) :=
  .of_document (document_tell e k)

theorem writes_tellAbout (detail : Bool) (notice : Descriptor → Notice) : Writes Q e (e.tellAbout n detail notice) :=
  .of_document (document_tellAbout e n detail notice)

theorem writes_metadata : Writes Q e (e.metadata n).2 :=
  .of_document (document_metadata e n)

theorem writes_setAttribute (name value failure : String) : Writes Q e (e.setAttribute n name value failure) :=
  .of_apply (.setAttribute n name value) trivial (document_setAttribute e n name value failure)

theorem writes_removeAttribute (name : String) : Writes Q e (e.removeAttribute n name) :=
  .of_apply (.removeAttribute n name) trivial rfl

theorem writes_setBodyAttribute (name : String) (value : Option String) : Writes Q e (e.setBodyAttribute name value) :=
  .of_apply (.setBodyAttribute name value) trivial rfl

theorem writes_setBodyCursor (cursor : Option String) : Writes Q e (e.setBodyCursor cursor) :=
  .of_apply (.setBodyCursor cursor) trivial rfl

theorem writes_removeStylesheet (id : String) : Writes Q e (e.removeStylesheet id) :=
  .of_apply (.removeStylesheet id) trivial rfl

theorem writes_injectStylesheet (id css : String) : Writes Q e (e.injectStylesheet id css) :=
  (writes_removeStylesheet id).trans (.of_apply (.injectStylesheet id css) trivial rfl)

/-! ## Hovering and selecting -/

theorem writes_clearHover (notify : Bool) : Writes Q e (e.clearHover notify) := by
  have unhovered : ∀ n, Writes Q e (e.unhover n) := fun n =>
    (writes_removeAttribute (e := { e with state := { e.state with hover := none } }) _).trans
      (writes_removeAttribute _)
  rcases clearHover_cases e notify with ⟨-, heq⟩ | ⟨n, heq | heq⟩
  · rw [heq]
    exact .refl e
  · rw [heq]
    exact unhovered n
  · rw [heq]
    exact (unhovered n).trans (writes_tell _)

theorem writes_markHovered : Writes Q e (e.markHovered n) := by
  unfold markHovered
  dsimp only
  split
  · exact (writes_setAttribute _ _ _).trans (writes_setAttribute _ _ _)
  · exact (writes_setAttribute _ _ _).trans (writes_removeAttribute _)

theorem writes_hoverElement : Writes Q e (e.hoverElement n) := by
  have marked : Writes Q e ((e.clearHover false).markHovered n) := (writes_clearHover false).trans writes_markHovered
  unfold hoverElement
  exact marked.trans (writes_tellAbout (e := { (e.clearHover false).markHovered n with
    state := { ((e.clearHover false).markHovered n).state with hover := some n } }) false _)

theorem writes_releaseSelection : Writes Q e e.releaseSelection := by
  unfold releaseSelection
  split
  · exact .refl e
  · rename_i s _
    have unmarked : Writes Q e (({ e with state := { e.state with selection := none } } : HeadlessEditor).removeAttribute
        s.element Overlay.selectedAttribute) := writes_removeAttribute (e := { e with state := _ }) _
    dsimp only
    split
    · exact unmarked.trans (writes_setAttribute _ _ _)
    · exact unmarked.trans (writes_removeAttribute _)

theorem writes_select : Writes Q e (e.select n) :=
  writes_releaseSelection.trans (writes_setAttribute Overlay.selectedAttribute "true" "Failed to mark selected element")

theorem writes_chosen : Writes Q e (e.chosen n) :=
  (writes_metadata.trans writes_select).trans (writes_tellAbout true _)

/-! ## Editing a text -/

/-- To end an edit is to write to the edited element. -/
theorem writes_endEdit (commit : Bool) (held : ∀ s, e.state.session = some s → Q s.element) :
    Writes Q e (e.endEdit commit) := by
  cases hs : e.state.session with
  | none =>
    rw [endEdit_of_none hs]
    exact .refl e
  | some s =>
    have settled : Writes Q e (e.settleText s commit) := by
      cases commit with
      | true => exact .of_document rfl
      | false => exact .of_apply (.setTextContent s.element s.openingText) (held s hs) rfl
    have unheard : ∀ e : HeadlessEditor, Writes Q e (e.unlistenTo s.element) := fun e =>
      ⟨ElementEvent.all.map (.unlistenTo s.element), by simp [PageEdit.Meek], rfl⟩
    have unmarked : ∀ e : HeadlessEditor, Writes Q e (e.unmarkEdited s.element) := fun e =>
      ((writes_removeAttribute _).trans (writes_removeAttribute _)).trans (unheard _)
    rw [endEdit_of_some hs]
    exact (settled.trans (unmarked _)).trans (writes_tell (e := log _ _ _ _) _)

theorem writes_openEdit (text : String) (i : Option Identity) : Writes Q e (e.openEdit n text i) := by
  refine ⟨.focus n :: ElementEvent.all.map (.listenTo n), by simp [PageEdit.Meek], ?_⟩
  rw [document_openEdit]
  rfl

theorem writes_beginEdit : Writes Q e (e.beginEdit n) := by
  rcases beginEdit_cases e n with ⟨page, hp, heq⟩ | ⟨fault, heq⟩
  · have marked : Writes Q e (e.marked n page) := by
      obtain ⟨-, d, h1, h2⟩ := markEdited_eq_ok hp
      have first : (PageEdit.setAttribute n Overlay.editingAttribute "true").apply (e.metadata n).2.page.document = d :=
        congrArg (orSame _) h1
      have second : (PageEdit.setAttribute n Overlay.editableAttribute "true").apply d = page.document :=
        congrArg (orSame d) h2
      have twice : page.document = (e.metadata n).2.page.document.edited
          [.setAttribute n Overlay.editingAttribute "true", .setAttribute n Overlay.editableAttribute "true"] := by
        rw [Document.edited, List.foldl_cons, List.foldl_cons, first, second]
        rfl
      exact writes_metadata.trans ⟨_, by simp [PageEdit.Meek], twice⟩
    rw [heq]
    exact marked.trans (writes_openEdit _ _)
  · rw [heq]
    exact (writes_metadata.trans (writes_removeAttribute (e := log _ _ _ _) _)).trans (writes_removeAttribute _)

theorem writes_startEdit (n : NodeId) (held : ∀ s, e.state.session = some s → Q s.element) :
    Writes Q e (e.startEdit n) := by
  unfold startEdit
  split
  · exact .refl e
  · exact (writes_endEdit false held).trans writes_beginEdit

/-! ## Modes -/

theorem writes_listen : Writes Q e e.listen := by
  unfold listen
  split
  · exact .refl e
  · exact ⟨DocumentEvent.all.map .listen, by simp [PageEdit.Meek], rfl⟩

theorem writes_unlisten : Writes Q e e.unlisten := by
  unfold unlisten
  split
  · exact ⟨DocumentEvent.all.map .unlisten, by simp [PageEdit.Meek], rfl⟩
  · exact .refl e

theorem writes_fitOut : Writes Q e e.fitOut :=
  ((((writes_injectStylesheet _ _).trans writes_listen).trans (writes_setBodyCursor _)).trans
    (writes_setBodyAttribute _ _)).trans (writes_injectStylesheet _ _)

theorem writes_hush : Writes Q e e.hush :=
  (writes_unlisten.trans (writes_setBodyCursor none)).trans (writes_setBodyAttribute _ none)

theorem writes_strip : Writes Q e e.strip :=
  (writes_removeStylesheet _).trans (writes_removeStylesheet _)

theorem writes_enter (m : EditMode) : Writes Q e (e.enter m) :=
  writes_tell (e := { e with state := { e.state with mode := m } }) (.modeChanged m)

/-- A change of mode is done by meek edits. -/
theorem writes_setMode (m : EditMode) (held : ∀ s, e.state.session = some s → Q s.element) :
    Writes Q e (e.setMode m).1 := by
  refine setMode_induction (P := Writes Q e) m (.refl e) ?_ ?_ ?_ ?_ ?_
  · exact fun _ _ _ _ h => h.trans (.of_document rfl)
  · exact fun _ => writes_fitOut.trans (writes_enter .enabled)
  · exact fun _ => (writes_setBodyAttribute Overlay.savingAttribute none).trans (writes_enter .enabled)
  · intro _
    have saving : Writes Q e (e.setBodyAttribute Overlay.savingAttribute (some "true")) := writes_setBodyAttribute _ _
    have unedited := saving.trans (writes_endEdit false held)
    exact (unedited.trans writes_releaseSelection).trans (writes_clearHover false)
  · intro _
    have hushed := (writes_endEdit false held).trans writes_hush
    have cleared := (hushed.trans writes_releaseSelection).trans (writes_clearHover false)
    rw [disable_eq]
    exact (cleared.trans writes_strip).trans (writes_enter .disabled)

/-! ## Commands of the host -/

theorem writes_updateStyles (styles : List (String × String)) : Writes Q e (e.updateStyles n styles) := by
  have styled : ∀ (e : HeadlessEditor) (s : String × String),
      Writes Q e (e.tryPage (fun page => Page.setStyle page n s.1 s.2) "Failed to apply style" [("property", s.1)]) :=
    fun e s => .of_apply (.setStyle n s.1 s.2) trivial (document_tryPage e (fun d => d.setStyle n s.1 s.2) _ _)
  exact .foldl styled styles e

theorem writes_updateClasses (changes : ClassChanges) : Writes Q e (e.updateClasses n changes) := by
  have removed : ∀ (e : HeadlessEditor) (c : String),
      Writes Q e (e.tryPage (fun page => Page.removeClass page n c) "Failed to remove class" [("class", c)]) :=
    fun e c => .of_apply (.removeClass n c) trivial (document_tryPage e (fun d => d.removeClass n c) _ _)
  have added : ∀ (e : HeadlessEditor) (c : String),
      Writes Q e (e.tryPage (fun page => Page.addClass page n c) "Failed to add class" [("class", c)]) :=
    fun e c => .of_apply (.addClass n c) trivial (document_tryPage e (fun d => d.addClass n c) _ _)
  exact (Writes.foldl removed changes.remove e).trans (.foldl added changes.add _)

theorem writes_letGo (n : NodeId) (held : ∀ s, e.state.session = some s → Q s.element) : Writes Q e (e.letGo n) := by
  have ended := writes_endEdit false held
  rcases letGo_cases e n with ⟨-, heq | heq⟩ | ⟨-, heq | heq⟩
  · rw [heq]
    exact ended
  · rw [heq]
    exact ended.trans (writes_clearHover false)
  · rw [heq]
    exact .refl e
  · rw [heq]
    exact writes_clearHover false

/-- A deletion is done by meek edits. -/
theorem writes_deleteElement (n : NodeId) (held : ∀ s, e.state.session = some s → Q s.element) :
    Writes Q e (e.deleteElement n).1 := by
  have free := writes_letGo n held
  rcases deleteElement_cases e n with heq | ⟨page, hp, heq⟩
  · rw [heq]
    exact free.trans (.of_document rfl)
  · obtain ⟨-, hd⟩ := remove?_eq_some hp
    have removed : page.document = (PageEdit.remove n).apply (e.letGo n).page.document := by
      show page.document = (Document.remove? _ n).getD _
      rw [hd]
      rfl
    rw [heq]
    exact free.trans ⟨[.remove n, .removeAttribute n Overlay.selectedAttribute], by simp [PageEdit.Meek],
      congrArg (fun d => Document.removeAttribute d n Overlay.selectedAttribute) removed⟩

/-- A command is carried out by meek edits. -/
theorem writes_handleCommand (c : Command) (held : HoldsOnly Q e) : Writes Q e (e.handleCommand c).1 := by
  have logged : e.state.selected? = none → ∀ level message fields, Writes Q e (e.log level message fields) :=
    fun _ _ _ _ => .of_document rfl
  cases c with
  | setMode m => exact writes_setMode m held.edited
  | updateText text =>
    exact withSelected_induction _ logged fun n hn => .of_apply (.setTextContent n text) (held.selected n hn) rfl
  | updateStyles styles => exact withSelected_induction _ logged fun n _ => writes_updateStyles styles
  | updateClasses changes => exact withSelected_induction _ logged fun n _ => writes_updateClasses changes
  | deleteElement => exact withSelected_induction _ logged fun n _ => writes_deleteElement n held.edited
  | clearSelection => exact ((writes_endEdit false held.edited).trans writes_releaseSelection).trans (writes_tell _)

/-! ## Events of the page -/

theorem writes_click (target : NodeId) (held : ∀ s, e.state.session = some s → Q s.element) :
    Writes Q e (e.click target).1 := by
  have ended := writes_endEdit true held
  rcases click_cases e target with ⟨-, heq⟩ | ⟨-, heq | ⟨n, -, heq⟩⟩
  · rw [heq]
    exact .refl e
  · rw [heq]
    exact (ended.trans writes_releaseSelection).trans (writes_tell _)
  · rw [heq]
    rcases clickElement_cases (session_endEdit e true) n with heq | heq | heq
    · rw [heq]
      exact (ended.trans writes_metadata).trans (.of_document rfl)
    · rw [heq]
      exact ended.trans writes_chosen
    · rw [heq]
      exact (ended.trans writes_chosen).trans writes_beginEdit

theorem writes_pointerOver (target : NodeId) : Writes Q e (e.pointerOver target) := by
  rcases pointerOver_cases e target with heq | ⟨-, heq | ⟨n, -, heq | heq⟩⟩
  · rw [heq]
    exact .refl e
  · rw [heq]
    exact writes_clearHover true
  · rw [heq]
    exact writes_metadata.trans (writes_clearHover true)
  · rw [heq]
    exact writes_metadata.trans writes_hoverElement

/-- An event is handled by meek edits. -/
theorem writes_handleEvent (ev : PageEvent NodeId) (held : ∀ s, e.state.session = some s → Q s.element) :
    Writes Q e (e.handleEvent ev).1 := by
  cases ev with
  | click target => exact writes_click target held
  | submit target => exact .refl e
  | keyDown key =>
    show Writes Q e (e.keyDown key)
    rcases keyDown_cases e key with heq | ⟨-, heq⟩
    · rw [heq]
      exact .refl e
    · rw [heq]
      exact (writes_releaseSelection.trans (writes_clearHover true)).trans (writes_tell _)
  | pointerOver target => exact writes_pointerOver target
  | scroll => exact writes_clearHover true
  | input element =>
    show Writes Q e (e.input element)
    rcases input_cases e element with heq | ⟨s, -, -, heq⟩
    · rw [heq]
      exact .refl e
    · rw [heq]
      exact writes_tell _
  | blur element =>
    rw [handleEvent_blur]
    split
    · exact writes_endEdit true held
    · exact .refl e
  | editKeyDown element key =>
    rw [handleEvent_editKeyDown]
    split
    · exact writes_endEdit false held
    · exact .refl e

/-- Every operation changes the document by meek edits. -/
theorem writes_operate (o : Operation) (held : HoldsOnly Q e) : Writes Q e (e.operate o) := by
  cases o with
  | contentChanged => exact .of_document (document_contentChanged e)
  | receive data fromParent =>
    exact receive_induction (P := Writes Q e) data fromParent (fun _ _ _ => .of_document rfl)
      fun c => writes_handleCommand c held
  | command c => exact writes_handleCommand c held
  | setMode m => exact writes_setMode m held.edited
  | event ev => exact writes_handleEvent ev held.edited
  | startEdit n => exact writes_startEdit n held.edited
  | endEdit commit => exact writes_endEdit commit held.edited

/-! ## What the editor holds -/

/-- What is selected or edited is an element of the document. -/
def HoldsElements (e : HeadlessEditor) : Prop :=
  HoldsOnly (fun n => (e.page.document.element? n).isSome) e

theorem holdsElements_new (d : Document) (config : EditorConfig) (time : String) :
    HoldsElements (new d config time) :=
  ⟨nofun, nofun⟩

/-- What is selected is an element, and stays one. -/
theorem selectsElement_kept : Kept fun e => ∀ n, e.state.selected? = some n → (e.page.document.element? n).isSome :=
  -- no element is ever unmade, so only the change of the selection has to be looked at
  have same : ∀ {as : List Aspect} {e e' : HeadlessEditor}, Only as e e' → Aspect.selection ∉ as →
      (∀ n, e.state.selected? = some n → (e.page.document.element? n).isSome) →
        ∀ n, e'.state.selected? = some n → (e'.page.document.element? n).isSome :=
    fun h ha selects n hn => h.elements n (selects n ((h.selected?_eq ha).symm.trans hn))
  { aside := fun h => same h (by decide)
    tell := fun {e n} _ => same (tell_only e n.topic rfl) (by simp)
    announce := same (announce_only _) (by decide)
    releaseSelection := fun {e} _ n hn => by
      rw [selected?_releaseSelection] at hn
      cases hn
    select := fun {e n} element _ m hm => by
      obtain rfl := Option.some.inj hm
      exact (select_only e n).elements n element
    dropped := fun {e n page} _ _ _ _ m hm => by cases hm
    endEdit := fun {e} commit => same (endEdit_only e commit) (by decide)
    beginEdit := fun {e} n _ => same (beginEdit_only e n) (by decide)
    input := fun {e} n => same (input_only e n) (by decide)
    enable := same (enter_only _ .enabled) (by decide)
    disable := fun _ => same (enter_only _ .disabled) (by decide)
    save := fun _ => same (mode_only _ .saving) (by decide) }

/-- What the editor holds are elements, after every step. -/
theorem holdsElements_step (x : Step) (held : HoldsElements e) : HoldsElements (e.step x) where
  edited := editsElement_step x held.edited
  selected := by
    cases x with
    | operate o => exact selectsElement_kept.operate o held.selected
    | _ => exact fun n hn => isSome_element?_step e _ (held.selected n hn)

/-! ## Steps -/

end Editor

/-- A step fits the document if it is no edit of the page, or one that fits. -/
def Step.Fits (d : Document) : Step → Prop
  | page x => x.Fits d
  | _ => True

instance (d : Document) : (x : Step) → Decidable (x.Fits d)
  | .page x => inferInstanceAs (Decidable (x.Fits d))
  | .clock _ | .channel _ | .operate _ => isTrue trivial

/-- The node under which a step of the page puts another one. -/
def Step.parents : Step → List NodeId
  | page x => x.parents
  | _ => []

namespace Editor

variable {e : HeadlessEditor} {x : Step}

/-- Every step changes the document by edits that fit, if the page makes no other. Where the page uses only elements as
parents, all of them do. -/
theorem exists_edits_step (held : HoldsElements e) (fits : x.Fits e.page.document) :
    ∃ ys, (e.step x).page.document = e.page.document.edited ys ∧ e.page.document.AllFit ys ∧
      ((∀ n ∈ x.parents, (e.page.document.element? n).isSome) → e.page.document.UsesElements ys) := by
  cases x with
  | page y => exact ⟨[y], rfl, ⟨fits, trivial⟩, fun elements => ⟨elements, trivial⟩⟩
  | clock time => exact ⟨[], rfl, trivial, fun _ => trivial⟩
  | channel failing => exact ⟨[], rfl, trivial, fun _ => trivial⟩
  | operate o =>
    obtain ⟨ys, meek, heq⟩ := writes_operate o held
    obtain ⟨allFit, uses⟩ := PageEdit.allFit_of_meek meek fun _ hn => hn
    exact ⟨ys, heq, allFit, fun _ => uses⟩

end Editor

end InPlace

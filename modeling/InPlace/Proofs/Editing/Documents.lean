import InPlace.Proofs.Editing.Run

/-!
# Documents under the editor

What becomes of the document itself when the editor selects an element, lets go of it, or begins the editing
of a text. Telling, logging and looking up leave it as it is; every other piece changes it in a way that
depends on the document and the state alone.

Main statements: `document_releaseSelection`, `document_select` and `document_openEdit`.
-/

namespace InPlace

open Headless (Document PageEdit)
open Headless.PageEdit (orSame)

namespace Headless.Document

/-- The document with a selection's mark taken away and the style of its element put back. -/
def released (d : Document) : Option (Selection NodeId) → Document
  | none => d
  | some s =>
    let d := d.removeAttribute s.element Overlay.selectedAttribute
    match s.unmarkedStyle with
    | some style => orSame d (d.setAttribute s.element "style" style)
    | none => d.removeAttribute s.element "style"

/-- The document in which the focus was brought to an element and it is listened to. -/
def attended (d : Document) (n : NodeId) : Document :=
  ElementEvent.all.foldl (fun d l => orSame d (d.listenTo n l)) (orSame d (d.focus n))

end Headless.Document

namespace Editor

variable (e : HeadlessEditor) (n : NodeId)

theorem document_log (level : LogLevel) (message : String) (fields : List (String × String)) :
    (e.log level message fields).page.document = e.page.document :=
  rfl

theorem document_tell (k : Notice) : (e.tell k).page.document = e.page.document := by
  rw [tell_eq]
  split <;> rfl

theorem document_metadata : (e.metadata n).2.page.document = e.page.document := by
  unfold metadata
  dsimp only
  split <;> rfl

theorem document_tellAbout (detail : Bool) (notice : Descriptor → Notice) :
    (e.tellAbout n detail notice).page.document = e.page.document := by
  unfold tellAbout
  dsimp only
  rw [document_tell]
  exact document_metadata e n

/-- A change that may fail leaves the document as it is then. -/
theorem document_tryPage (f : Document → Except PageError Document) (failure : String)
    (fields : List (String × String)) :
    (e.tryPage (fun page => page.tryDocument f) failure fields).page.document =
      orSame e.page.document (f e.page.document) := by
  unfold tryPage Headless.tryDocument
  dsimp only
  cases f e.page.document <;> rfl

theorem document_setAttribute (name value failure : String) :
    (e.setAttribute n name value failure).page.document =
      orSame e.page.document (e.page.document.setAttribute n name value) :=
  document_tryPage e (fun d => d.setAttribute n name value) failure []

/-- To release the selection is one change of the document. -/
theorem document_releaseSelection :
    e.releaseSelection.page.document = e.page.document.released e.state.selection := by
  unfold releaseSelection Document.released
  cases e.state.selection with
  | none => rfl
  | some s =>
    dsimp only
    cases s.unmarkedStyle with
    | some style => exact document_setAttribute _ _ _ _ _
    | none => rfl

/-- To select an element releases the one before and marks the new one. -/
theorem document_select :
    (e.select n).page.document = orSame (e.page.document.released e.state.selection)
      ((e.page.document.released e.state.selection).setAttribute n Overlay.selectedAttribute "true") := by
  unfold select
  dsimp only
  rw [document_setAttribute, document_releaseSelection]

theorem document_listenTo : (e.listenTo n).page.document =
    ElementEvent.all.foldl (fun d l => orSame d (d.listenTo n l)) e.page.document := by
  -- by induction on the events, for any editor on the way
  have heard : ∀ (ls : List ElementEvent) (e : HeadlessEditor),
      (ls.foldl (fun e l => e.tryPage (fun page => Page.listenTo page n l)
        "Failed to add edit listener" [("event", l.name)]) e).page.document =
        ls.foldl (fun d l => orSame d (d.listenTo n l)) e.page.document := by
    intro ls
    induction ls with
    | nil => exact fun _ => rfl
    | cons l ls ih =>
      intro e
      have listened : (e.tryPage (fun page => Page.listenTo page n l) "Failed to add edit listener"
          [("event", l.name)]).page.document = orSame e.page.document (e.page.document.listenTo n l) :=
        document_tryPage e (fun d => d.listenTo n l) _ _
      rw [List.foldl_cons, List.foldl_cons, ih, listened]
  exact heard ElementEvent.all e

/-- An edit is opened by its marks, its listeners and the focus. -/
theorem document_opened (text : String) (i : Option Identity) :
    (e.opened n text i).page.document = e.page.document.attended n := by
  have focused : (e.focusOn n).page.document = orSame e.page.document (e.page.document.focus n) :=
    document_tryPage e (fun d => d.focus n) _ _
  unfold opened
  dsimp only
  rw [document_log, document_listenTo, focused]
  rfl

theorem document_openEdit (text : String) (i : Option Identity) :
    (e.openEdit n text i).page.document = e.page.document.attended n := by
  rw [openEdit_eq, document_tellAbout, document_tellAbout, document_opened]

end Editor

end InPlace

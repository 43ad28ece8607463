import InPlace.Proofs.Editing.Run

/-!
# Commands that are refused

A command may have nothing to do, or nothing selected to do it to, and then the editor says so. It has left the page,
its own state and the host alone then, and only its log is longer (`Untouched`). There is one exception. A deletion gives
up the edit of the element and a hover inside of it before it turns out that the element has no parent to be taken out
of, as when the page has taken it out already.

Main statements: `deleteElement_refused` and `handleCommand_refused`.
-/

namespace InPlace.Editor

open Headless (Document PageEdit)

variable {e e' : HeadlessEditor} {n : NodeId} {c : Command}

/-- The second editor differs from the first in its log at most. -/
def Untouched (e e' : HeadlessEditor) : Prop :=
  e' = { e with page.journal := e'.page.journal }

/-- The editor edits this element, or hovers something inside of it. -/
def HoldsIn (e : HeadlessEditor) (n : NodeId) : Prop :=
  e.state.editing? = some n ∨ ∃ m, e.state.hover = some m ∧ e.contains n m = true

theorem untouched_log (e : HeadlessEditor) (level : LogLevel) (message : String)
    (fields : List (String × String)) : Untouched e (e.log level message fields) :=
  rfl

theorem Untouched.state (h : Untouched e e') : e'.state = e.state := by
  rw [h]

/-! ## Refused changes of mode -/

/-- A mode that cannot be set leaves the editor untouched. -/
theorem setMode_untouched {m : EditMode} (h : (e.setMode m).2 = false) : Untouched e (e.setMode m).1 := by
  unfold setMode at h ⊢
  dsimp only at h ⊢
  by_cases hm : e.state.mode = m
  · rw [if_pos hm]
    exact untouched_log e _ _ _
  · rw [if_neg hm] at h ⊢
    by_cases hf : canFollow e.state.mode m = true
    · rw [if_pos hf] at h
      simp at h
    · rw [if_neg hf]
      exact untouched_log e _ _ _

/-! ## Refused deletions -/

/-- Where nothing is held there is nothing to let go of. -/
theorem letGo_of_not_holdsIn (h : ¬ e.HoldsIn n) : e.letGo n = e := by
  obtain ⟨idle, outside⟩ := not_or.1 h
  have same : e.unedited n = e := if_neg idle
  rw [letGo_eq, same]
  cases hm : e.state.hover with
  | none => rfl
  | some m =>
    have out : e.contains n m = false := eq_false_of_ne_true fun hin => outside ⟨m, hm, hin⟩
    rw [Option.any_some, if_neg (by simp [out])]

/-- What is held shows in the state after it was let go of. -/
theorem state_letGo_ne (h : e.HoldsIn n) : (e.letGo n).state ≠ e.state := by
  intro same
  have idle := editing?_letGo e n
  rw [same] at idle
  rcases h with editing | ⟨m, hm, inside⟩
  · exact idle editing
  · have unedited : e.unedited n = e := if_neg idle
    have left : (e.letGo n).state.hover = none := by
      rw [letGo_eq, unedited, hm, Option.any_some, if_pos inside]
      exact hover_clearHover e false
    rw [same, hm] at left
    simp at left

/-- An element that cannot be removed has no parent. -/
theorem remove?_eq_none {page : Headless} (h : Page.remove? page n = none) :
    page.document.nodes.parent? n = none := by
  change (page.document.remove? n).map _ = none at h
  rw [Option.map_eq_none_iff, Document.remove?] at h
  cases hp : page.document.nodes.parent? n with
  | none => rfl
  | some p => simp [hp] at h

/-- A deletion is refused of an element without a parent, after everything held in it was let go of. -/
theorem deleteElement_refused (h : (e.deleteElement n).2 ≠ .applied) :
    (e.letGo n).page.document.nodes.parent? n = none ∧ Untouched (e.letGo n) (e.deleteElement n).1 := by
  unfold deleteElement at h ⊢
  dsimp only at h ⊢
  cases hp : Page.remove? (e.letGo n).page n with
  | none => exact ⟨remove?_eq_none hp, untouched_log _ _ _ _⟩
  | some page =>
    rw [hp] at h
    exact absurd rfl h

/-- A deletion that is refused has touched something exactly if something was held in the element. -/
theorem deleteElement_untouched_iff (h : (e.deleteElement n).2 ≠ .applied) :
    Untouched e (e.deleteElement n).1 ↔ ¬ e.HoldsIn n := by
  obtain ⟨-, rest⟩ := deleteElement_refused h
  constructor
  · intro untouched held
    refine state_letGo_ne held ?_
    rw [← rest.state, untouched.state]
  · intro free
    rwa [letGo_of_not_holdsIn free] at rest

/-! ## Refused commands -/

/-- A command for the selected element is refused, or done to that element. -/
theorem withSelected_cases (e : HeadlessEditor) (kind : String)
    (act : HeadlessEditor → NodeId → HeadlessEditor × Outcome) :
    (e.state.selected? = none ∧
      e.withSelected kind act = (e.log .warn "No element selected" [("kind", kind)], .noSelection)) ∨
    ∃ n, e.state.selected? = some n ∧ e.withSelected kind act = act e n := by
  unfold withSelected
  cases h : e.state.selected? with
  | none => exact .inl ⟨rfl, rfl⟩
  | some n => exact .inr ⟨n, rfl, rfl⟩

/-- What does not fail once something is selected is refused for want of a selection. -/
theorem withSelected_untouched {kind : String} {act : HeadlessEditor → NodeId → HeadlessEditor × Outcome}
    (applied : ∀ n, (act e n).2 = .applied) (h : (e.withSelected kind act).2 ≠ .applied) :
    Untouched e (e.withSelected kind act).1 := by
  rcases withSelected_cases e kind act with ⟨-, heq⟩ | ⟨n, -, heq⟩
  · rw [heq]
    exact untouched_log e _ _ _
  · rw [heq] at h
    exact absurd (applied n) h

/-- The command deletes an element in which the editor holds something. -/
def GivesUp (e : HeadlessEditor) (c : Command) : Prop :=
  c = .deleteElement ∧ ∃ n, e.state.selected? = some n ∧ e.HoldsIn n

/-- What comes of a command that is refused. -/
structure Refused (e : HeadlessEditor) (c : Command) : Prop where
  untouched_iff : Untouched e (e.handleCommand c).1 ↔ ¬ e.GivesUp c
  /-- What is held in an element that cannot be deleted is let go of, and nothing else is touched. -/
  letGo : ∀ n, c = .deleteElement → e.state.selected? = some n →
    (e.letGo n).page.document.nodes.parent? n = none ∧ Untouched (e.letGo n) (e.handleCommand c).1

theorem Refused.of_untouched (hc : c ≠ .deleteElement) (h : Untouched e (e.handleCommand c).1) :
    Refused e c where
  untouched_iff := ⟨fun _ gives => hc gives.1, fun _ => h⟩
  letGo _ hd _ := absurd hd hc

/-- A deletion that is not applied has at most ended the edit and given the hover up. -/
theorem refused_deleteElement (h : (e.handleCommand .deleteElement).2 ≠ .applied) :
    Refused e .deleteElement := by
  have commanded : e.handleCommand .deleteElement =
      e.withSelected Command.deleteElement.kind deleteElement := rfl
  -- without a selection nothing is let go of; with one the refusal comes after the element was let go of
  rcases withSelected_cases e Command.deleteElement.kind deleteElement with
    ⟨unselected, heq⟩ | ⟨n, selected, heq⟩
  · refine ⟨⟨?_, fun _ => ?_⟩, ?_⟩
    · rintro - ⟨-, n, selected, -⟩
      simp [unselected] at selected
    · rw [commanded, heq]
      exact untouched_log e _ _ _
    · intro n _ selected
      simp [unselected] at selected
  · rw [commanded, heq] at h
    refine ⟨?_, ?_⟩
    · rw [commanded, heq, deleteElement_untouched_iff h]
      refine not_congr ⟨fun held => ⟨rfl, n, selected, held⟩, ?_⟩
      rintro ⟨-, m, hm, held⟩
      cases selected.symm.trans hm
      exact held
    · intro m _ hm
      cases selected.symm.trans hm
      rw [commanded, heq]
      exact deleteElement_refused h

/-- A command that was ignored, or had nothing selected to be done to, has touched nothing, unless it is a deletion of an
element in which something is held. Then that was let go of, and nothing else was touched. -/
theorem handleCommand_refused
    (h : (e.handleCommand c).2 = .ignored ∨ (e.handleCommand c).2 = .noSelection) : Refused e c := by
  have refused : (e.handleCommand c).2 ≠ .applied := by
    rcases h with h | h
    · simp [h]
    · simp [h]
  cases c with
  | setMode m =>
    refine .of_untouched (by simp) (setMode_untouched ?_)
    cases changed : (e.setMode m).2 with
    | false => rfl
    | true =>
      refine absurd ?_ refused
      show (if (e.setMode m).2 = true then Outcome.applied else .ignored) = .applied
      rw [if_pos changed]
  | updateText text => exact .of_untouched (by simp) (withSelected_untouched (fun _ => rfl) refused)
  | updateStyles styles => exact .of_untouched (by simp) (withSelected_untouched (fun _ => rfl) refused)
  | updateClasses changes => exact .of_untouched (by simp) (withSelected_untouched (fun _ => rfl) refused)
  | clearSelection => exact absurd rfl refused
  | deleteElement => exact refused_deleteElement refused

/-- A paragraph that is edited and that the page has taken out cannot be deleted. The edit is given up at the first
attempt, and the second one touches nothing. -/
theorem handleCommand_refused_twice :
    let e := (new .empty {} "").run [.page (.appendIdentified 0 "p" "a.tsx:1:0"), .page (.appendText 1 "Hello"),
      .operate (.setMode .enabled), .operate (.event (.click 1)), .page (.remove 1)]
    let e' := (e.handleCommand .deleteElement).1
    ¬ Untouched e e' ∧ Untouched (e.letGo 1) e' ∧ Untouched e' (e'.handleCommand .deleteElement).1 := by
  intro e e'
  have first : (e.handleCommand .deleteElement).2 = .ignored := by decide +kernel
  have second : (e'.handleCommand .deleteElement).2 = .ignored := by decide +kernel
  have selected : e.state.selected? = some 1 := by decide +kernel
  have editing : e.state.editing? = some 1 := by decide +kernel
  have idle : e'.state.editing? = none := by decide +kernel
  have unhovered : e'.state.hover = none := by decide +kernel
  have attempt := handleCommand_refused (.inl first)
  have again := handleCommand_refused (.inl second)
  refine ⟨fun h => attempt.untouched_iff.1 h ⟨rfl, 1, selected, .inl editing⟩,
    (attempt.letGo 1 rfl selected).2, again.untouched_iff.2 ?_⟩
  rintro ⟨-, n, -, held | ⟨m, hm, -⟩⟩
  · simp [idle] at held
  · simp [unhovered] at hm

/-- The attempt ends the edit and tells the host so, and says that there was nothing to do. -/
theorem ignored_ends_edit :
    let e := (new .empty {} "").run [.page (.appendIdentified 0 "p" "a.tsx:1:0"), .page (.appendText 1 "Hello"),
      .operate (.setMode .enabled), .operate (.event (.click 1)), .page (.remove 1)]
    let e' := (e.handleCommand .deleteElement).1
    (e.handleCommand .deleteElement).2 = .ignored ∧ e.state.editing? = some 1 ∧ e'.state.editing? = none ∧
      e'.page.outbox.sent.length = e.page.outbox.sent.length + 1 := by
  decide +kernel

end InPlace.Editor

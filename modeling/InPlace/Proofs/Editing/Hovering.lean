import InPlace.Proofs.Editing.Documents
import InPlace.Proofs.Editing.Mirror
import InPlace.Proofs.Editing.References

/-!
# The hovered element

What becomes of the hover in a reaction (`Turn`): it stays, another element is hovered in its place and the host is
told, it ends and the host is told, or it lapses without a word. In the last three cases the hovered element loses its
marks. The news of changed elements is none of these: it only forgets a hovered node that is out of the document.

Main statements: `turn_operate`, `sameHover_contentChanged`, `forgets_contentChanged` and `calm_step`.
-/

namespace InPlace.Editor

open Headless (Document Part PageEdit)

variable {as : List Aspect} {q : NodeId → Prop} {e e₁ e' : HeadlessEditor} {n m : NodeId}

/-- A node has a mark of a hovered element. -/
def HoverMarked (e : HeadlessEditor) (n : NodeId) : Prop :=
  (e.page.document.attribute? n Overlay.hoveredAttribute).isSome ∨
    (e.page.document.attribute? n Overlay.fullWidthAttribute).isSome

/-- The same is hovered, and marked as such, and the host was told no more of it. -/
structure SameHover (e e' : HeadlessEditor) : Prop where
  config : e'.config = e.config
  channel : e'.page.outbox.failing = e.page.outbox.failing
  hover : e'.state.hover = e.state.hover
  marked : ∀ m, e'.HoverMarked m ↔ e.HoverMarked m
  told : e'.told .hover = e.told .hover

/-- The aspects that say what is hovered, and what the host is told of it. -/
abbrev ofHover : List Aspect :=
  [.channel, .hover, .page (.attr Overlay.hoveredAttribute), .page (.attr Overlay.fullWidthAttribute),
    .told .hover]

theorem hoverMarked_congr (h : Only as e e') (hovered : .page (.attr Overlay.hoveredAttribute) ∉ as)
    (full : .page (.attr Overlay.fullWidthAttribute) ∉ as) (m : NodeId) :
    e'.HoverMarked m ↔ e.HoverMarked m := by
  unfold HoverMarked
  rw [h.attribute?_eq hovered, h.attribute?_eq full]

theorem SameHover.of_only (h : Only as e e') (ha : ∀ a ∈ ofHover, a ∉ as) : SameHover e e' where
  config := h.config
  channel := h.failing_eq (ha _ (by decide))
  hover := h.hover_eq (ha _ (by decide))
  marked := hoverMarked_congr h (ha _ (by decide)) (ha _ (by decide))
  told := h.told_eq (ha _ (by decide))

/-- What a reaction does about the hover, where `q` says of which nodes a hover may end without a word. -/
inductive Turn (q : NodeId → Prop) (e e' : HeadlessEditor) : Prop
  | stays (same : SameHover e e')
  /-- Another element is hovered, and the host is told of it. -/
  | comes (n : NodeId) (mode : e.state.mode = .enabled) (hover : e'.state.hover = some n)
      (marked : ∀ m, e'.HoverMarked m ↔ m = n ∨ (e.HoverMarked m ∧ e.state.hover ≠ some m))
      (told : e.page.outbox.failing = false → ∃ d, e'.told .hover =
        e.told .hover ++ [.ofNotice (.hoverChanged (some d)) e.config.editorTag])
  /-- The hover ends, and the host is told that nothing is hovered. -/
  | ends (n : NodeId) (was : e.state.hover = some n) (hover : e'.state.hover = none)
      (marked : ∀ m, e'.HoverMarked m ↔ e.HoverMarked m ∧ m ≠ n)
      (told : e.page.outbox.failing = false → e'.told .hover =
        e.told .hover ++ [.ofNotice (.hoverChanged none) e.config.editorTag])
  /-- The hover ends, and the host is told nothing. -/
  | lapses (n : NodeId) (quiet : q n) (was : e.state.hover = some n) (hover : e'.state.hover = none)
      (marked : ∀ m, e'.HoverMarked m ↔ e.HoverMarked m ∧ m ≠ n) (told : e'.told .hover = e.told .hover)

namespace Turn

/-- What comes before and is not about the hover changes nothing about the turn. -/
theorem before (h : SameHover e e₁) (mode : e₁.state.mode = e.state.mode) (t : Turn q e₁ e') :
    Turn q e e' := by
  cases t with
  | stays same =>
    exact .stays ⟨same.config.trans h.config, same.channel.trans h.channel, same.hover.trans h.hover,
      fun m => (same.marked m).trans (h.marked m), same.told.trans h.told⟩
  | comes n hm hover marked told =>
    refine .comes n (mode.symm.trans hm) hover (fun m => ?_) fun hf => ?_
    · rw [marked, h.marked, h.hover]
    · rw [← h.told, ← h.config]
      exact told (h.channel.trans hf)
  | ends n was hover marked told =>
    refine .ends n (h.hover.symm.trans was) hover (fun m => ?_) fun hf => ?_
    · rw [marked, h.marked]
    · rw [← h.told, ← h.config]
      exact told (h.channel.trans hf)
  | lapses n quiet was hover marked told =>
    refine .lapses n quiet (h.hover.symm.trans was) hover (fun m => ?_) (told.trans h.told)
    rw [marked, h.marked]

/-- What comes after and is not about the hover changes nothing about the turn. -/
theorem after (t : Turn q e e₁) (h : SameHover e₁ e') : Turn q e e' := by
  have marks : ∀ {p : NodeId → Prop}, (∀ m, e₁.HoverMarked m ↔ p m) → ∀ m, e'.HoverMarked m ↔ p m :=
    fun marked m => (h.marked m).trans (marked m)
  cases t with
  | stays same =>
    exact .stays ⟨h.config.trans same.config, h.channel.trans same.channel, h.hover.trans same.hover,
      marks same.marked, h.told.trans same.told⟩
  | comes n hm hover marked told =>
    refine .comes n hm (h.hover.trans hover) (marks marked) fun hf => ?_
    rw [h.told]
    exact told hf
  | ends n was hover marked told =>
    exact .ends n was (h.hover.trans hover) (marks marked) fun hf => h.told.trans (told hf)
  | lapses n quiet was hover marked told =>
    exact .lapses n quiet was (h.hover.trans hover) (marks marked) (h.told.trans told)

theorem mono {q' : NodeId → Prop} (t : Turn q e e') (h : ∀ n, q n → q' n) : Turn q' e e' := by
  cases t with
  | stays same => exact .stays same
  | comes n hm hover marked told => exact .comes n hm hover marked told
  | ends n was hover marked told => exact .ends n was hover marked told
  | lapses n quiet was hover marked told => exact .lapses n (h n quiet) was hover marked told

theorem of_only (h : Only as e e') (ha : ∀ a ∈ ofHover, a ∉ as) : Turn q e e' :=
  .stays (.of_only h ha)

end Turn

/-! ## The end of a hover -/

/-- The marks of a hover go from its element and from no other. -/
theorem hoverMarked_unhover (e : HeadlessEditor) (n m : NodeId) :
    (e.unhover n).HoverMarked m ↔ e.HoverMarked m ∧ m ≠ n := by
  let cleared := removeAttribute { e with state := { e.state with hover := none } } n Overlay.hoveredAttribute
  have hovered : (e.unhover n).page.document.attribute? m Overlay.hoveredAttribute =
      if n = m then none else e.page.document.attribute? m Overlay.hoveredAttribute :=
    ((removeAttribute_only cleared n Overlay.fullWidthAttribute).attribute?_eq (by decide) m).trans
      (Document.attribute?_removeAttribute e.page.document n m Overlay.hoveredAttribute)
  have full : (e.unhover n).page.document.attribute? m Overlay.fullWidthAttribute =
      if n = m then none else e.page.document.attribute? m Overlay.fullWidthAttribute := by
    refine (Document.attribute?_removeAttribute cleared.page.document n m Overlay.fullWidthAttribute).trans ?_
    rw [(removeAttribute_only { e with state := { e.state with hover := none } } n
      Overlay.hoveredAttribute).attribute?_eq (by decide) m]
  unfold HoverMarked
  rw [hovered, full]
  by_cases h : n = m
  · simp [h]
  · simp [h, Ne.symm h]

theorem clearHover_of_none (h : e.state.hover = none) (notify : Bool) : e.clearHover notify = e := by
  unfold clearHover
  rw [h]

theorem clearHover_of_some (h : e.state.hover = some n) (notify : Bool) : e.clearHover notify =
    if notify then (e.unhover n).tell (.hoverChanged none) else e.unhover n := by
  unfold clearHover
  rw [h]
  rfl

theorem told_clearHover_false (e : HeadlessEditor) : (e.clearHover false).told .hover = e.told .hover := by
  cases h : e.state.hover with
  | none => rw [clearHover_of_none h]
  | some n =>
    rw [clearHover_of_some h, if_neg Bool.false_ne_true]
    exact (unhover_only e n).told_eq (by decide)

/-- The host is told of the end of a hover, if it is to be told. -/
theorem turn_clearHover_true (q : NodeId → Prop) (e : HeadlessEditor) : Turn q e (e.clearHover true) := by
  cases h : e.state.hover with
  | none =>
    rw [clearHover_of_none h]
    exact .of_only (.refl [] e) (by decide)
  | some n =>
    have unhovered := unhover_only e n
    have telling := tell_only (e.unhover n) .hover (n := .hoverChanged none) rfl
    rw [clearHover_of_some h, if_pos rfl]
    refine .ends n h ?_ (fun m => ?_) fun hf => ?_
    · rw [tell_state]
      rfl
    · rw [hoverMarked_congr telling (by decide) (by decide), hoverMarked_unhover]
    · have told := told_tell ((unhovered.failing_eq (by decide)).trans hf) (.hoverChanged none)
      rw [unhovered.config] at told
      exact told.trans (congrArg (· ++ _) (unhovered.told_eq (t := .hover) (by decide)))

theorem turn_clearHover_false (h : ∀ n, e.state.hover = some n → q n) : Turn q e (e.clearHover false) := by
  cases hn : e.state.hover with
  | none =>
    rw [clearHover_of_none hn]
    exact .of_only (.refl [] e) (by decide)
  | some n =>
    rw [clearHover_of_some hn, if_neg Bool.false_ne_true]
    exact .lapses n (h n hn) hn rfl (hoverMarked_unhover e n) ((unhover_only e n).told_eq (by decide))

/-! ## The begin of a hover -/

/-- An attribute of an element after the editor has set it. -/
theorem attribute?_setAttribute_element {name : String} (hname : name ≠ "style")
    (hn : (e.page.document.element? n).isSome) (value failure : String) (m : NodeId) :
    (e.setAttribute n name value failure).page.document.attribute? m name =
      if n = m then some value else e.page.document.attribute? m name := by
  obtain ⟨el, hel⟩ := Option.isSome_iff_exists.1 hn
  rw [document_setAttribute]
  cases hd : e.page.document.setAttribute n name value with
  | ok d => exact Document.attribute?_setAttribute hname hd m
  | error fault =>
    simp [Document.setAttribute, Document.ifElement, hel] at hd

/-- An element that is marked as hovered is, and the others are as before. -/
theorem hoverMarked_markHovered (hn : (e.page.document.element? n).isSome) (m : NodeId) :
    (e.markHovered n).HoverMarked m ↔ m = n ∨ e.HoverMarked m := by
  let marked := e.setAttribute n Overlay.hoveredAttribute "true" "Failed to mark hovered element"
  have marking := setAttribute_only e n Overlay.hoveredAttribute "true" "Failed to mark hovered element"
  have known : (marked.page.document.element? n).isSome := marking.elements n hn
  have hovered : ∀ m, (e.markHovered n).page.document.attribute? m Overlay.hoveredAttribute =
      if n = m then some "true" else e.page.document.attribute? m Overlay.hoveredAttribute := by
    intro m
    rw [← attribute?_setAttribute_element (by decide) hn]
    unfold markHovered
    dsimp only
    split
    · exact (setAttribute_only marked n Overlay.fullWidthAttribute _ _).attribute?_eq (by decide) m
    · exact (removeAttribute_only marked n Overlay.fullWidthAttribute).attribute?_eq (by decide) m
  have full : n ≠ m → (e.markHovered n).page.document.attribute? m Overlay.fullWidthAttribute =
      e.page.document.attribute? m Overlay.fullWidthAttribute := by
    intro hne
    rw [← marking.attribute?_eq (by decide) m]
    unfold markHovered
    dsimp only
    split
    · rw [attribute?_setAttribute_element (by decide) known, if_neg hne]
    · exact (Document.attribute?_removeAttribute marked.page.document n m _).trans (if_neg hne)
  unfold HoverMarked
  by_cases h : n = m
  · rw [hovered, if_pos h]
    simp [h]
  · rw [hovered, full h, if_neg h]
    simp [Ne.symm h]

/-- A hover that is given up loses its marks, and no other element does. -/
theorem hoverMarked_clearHover (e : HeadlessEditor) (m : NodeId) :
    (e.clearHover false).HoverMarked m ↔ e.HoverMarked m ∧ e.state.hover ≠ some m := by
  cases h : e.state.hover with
  | none => simp [clearHover_of_none h]
  | some n =>
    rw [clearHover_of_some h, if_neg Bool.false_ne_true, hoverMarked_unhover]
    simp [eq_comm]

/-- An element is hovered in place of another one. -/
theorem turn_hoverElement (q : NodeId → Prop) (mode : e.state.mode = .enabled)
    (hn : (e.page.document.element? n).isSome) : Turn q e (e.hoverElement n) := by
  let hovered : HeadlessEditor :=
    { (e.clearHover false).markHovered n with
      state := { ((e.clearHover false).markHovered n).state with hover := some n } }
  have cleared := clearHover_only e false
  have marking := (markHovered_only (e.clearHover false) n).trans (hover_only _ (some n))
  have telling := tellAbout_only hovered n false .hover (fun d => .hoverChanged (some d)) fun _ => rfl
  refine .comes n mode ?_ (fun m => ?_) fun hf => ?_
  · exact telling.hover_eq (by decide)
  · have marks : hovered.HoverMarked m ↔ ((e.clearHover false).markHovered n).HoverMarked m := Iff.rfl
    rw [show e.hoverElement n = hovered.tellAbout n false fun d => .hoverChanged (some d) from rfl,
      hoverMarked_congr telling (by decide) (by decide), marks,
      hoverMarked_markHovered (cleared.elements n hn), hoverMarked_clearHover]
  · have before := cleared.trans marking
    have described := describe_only hovered n false
    have told := told_tell ((described.failing_eq (by decide)).trans
      ((before.failing_eq (by decide)).trans hf)) (.hoverChanged (some (hovered.describe n false).1))
    have same : (hovered.describe n false).2.told .hover = e.told .hover :=
      ((described.told_eq (by decide)).trans (marking.told_eq (by decide))).trans (told_clearHover_false e)
    refine ⟨(hovered.describe n false).1, told.trans ?_⟩
    rw [described.config, before.config]
    exact congrArg (· ++ _) same

/-! ## Events of the page -/

theorem turn_pointerOver (q : NodeId → Prop) (e : HeadlessEditor) (target : NodeId) :
    Turn q e (e.pointerOver target) := by
  rcases pointerOver_cases e target with heq | ⟨mode, heq | ⟨n, hn, heq⟩⟩
  · rw [heq]
    exact .of_only (.refl [] e) (by decide)
  · rw [heq]
    exact turn_clearHover_true q e
  · have known := metadata_only e n
    have enabled := (known.mode_eq (by decide)).trans mode
    have same : SameHover e (e.metadata n).2 := .of_only known (by decide)
    refine .before same (known.mode_eq (by decide)) ?_
    rcases heq with heq | heq
    · rw [heq]
      exact turn_clearHover_true q _
    · rw [heq]
      exact turn_hoverElement q enabled (known.elements n (element?_of_identified? hn))

theorem turn_keyDown (q : NodeId → Prop) (e : HeadlessEditor) (key : String) :
    Turn q e (e.keyDown key) := by
  rcases keyDown_cases e key with heq | ⟨-, heq⟩
  · rw [heq]
    exact .of_only (.refl [] e) (by decide)
  · have released := releaseSelection_only e
    rw [heq]
    exact ((turn_clearHover_true q _).after (.of_only (tell_only _ .cleared rfl) (by decide))).before
      (.of_only released (by decide)) (released.mode_eq (by decide))

/-- At any event the hover turns as it may. -/
theorem turn_handleEvent (q : NodeId → Prop) (e : HeadlessEditor) (ev : PageEvent NodeId) :
    Turn q e (e.handleEvent ev).1 := by
  cases ev with
  | click target => exact .of_only (click_only e target) (by decide)
  | submit target => exact .of_only (.refl [] e) (by decide)
  | keyDown key => exact turn_keyDown q e key
  | pointerOver target => exact turn_pointerOver q e target
  | scroll => exact turn_clearHover_true q e
  | input element => exact .of_only (input_only e element) (by decide)
  | blur element =>
    rw [handleEvent_blur]
    split
    · exact .of_only (endEdit_only e true) (by decide)
    · exact .of_only (.refl [] e) (by decide)
  | editKeyDown element key =>
    rw [handleEvent_editKeyDown]
    split
    · exact .of_only (endEdit_only e false) (by decide)
    · exact .of_only (.refl [] e) (by decide)

/-! ## Commands of the host -/

/-- A node is inside of the selected element, once that is not edited any more. -/
def Buries (e : HeadlessEditor) (m : NodeId) : Prop :=
  ∃ n, e.state.selected? = some n ∧ (e.unedited n).contains n m = true

/-- A hovered node may cease to be hovered without a word: the mode is another one after a command, or the command
deletes what the node is in. -/
def Quiet (e : HeadlessEditor) (c : Command) (m : NodeId) : Prop :=
  (e.handleCommand c).1.state.mode ≠ .enabled ∨ (c = .deleteElement ∧ e.Buries m)

theorem sameHover_unedited (e : HeadlessEditor) (n : NodeId) : SameHover e (e.unedited n) := by
  unfold unedited
  split
  · exact .of_only (endEdit_only e false) (by decide)
  · exact .of_only (.refl [] e) (by decide)

theorem mode_unedited (e : HeadlessEditor) (n : NodeId) : (e.unedited n).state.mode = e.state.mode := by
  unfold unedited
  split
  · exact (endEdit_only e false).mode_eq (by decide)
  · rfl

/-- What is done of a deletion once everything inside of the element was let go of. -/
theorem sameHover_deleteElement (e : HeadlessEditor) (n : NodeId) :
    SameHover (e.letGo n) (e.deleteElement n).1 := by
  rcases deleteElement_cases e n with heq | ⟨page, hp, heq⟩
  · rw [heq]
    exact .of_only (log_only _ _ _ _) (by decide)
  · rw [heq]
    exact .of_only (dropped_only hp) (by decide)

/-- A deletion turns the hover only if it buries the hovered element. -/
theorem turn_deleteElement (hn : e.state.selected? = some n) : Turn e.Buries e (e.deleteElement n).1 := by
  have unedited := sameHover_unedited e n
  refine .after (.before unedited (mode_unedited e n) ?_) (sameHover_deleteElement e n)
  rw [letGo_eq]
  split
  · rename_i inside
    refine turn_clearHover_false fun m hm => ⟨n, hn, ?_⟩
    rwa [hm, Option.any_some] at inside
  · exact .of_only (.refl [] _) (by decide)

/-- A change of mode gives the hover up without a word where editing ends. -/
theorem turn_setMode (e : HeadlessEditor) (m : EditMode) :
    Turn (fun _ => (e.setMode m).1.state.mode ≠ .enabled) e (e.setMode m).1 := by
  obtain ⟨e', level, message, fields, heq, hcases⟩ := setMode_cases e m
  rw [heq]
  refine .after ?_ (.of_only (log_only e' level message fields) (by decide))
  -- both saving and disabling drop the hover, after what else they let go of and before the mode is another one
  rcases hcases with ⟨-, -, rfl⟩ | ⟨-, -, rfl⟩ | ⟨-, -, rfl⟩ | ⟨-, -, rfl⟩ | ⟨-, rfl⟩
  · exact .of_only (enable_only e) (by decide)
  · exact .of_only (leaveSaving_only e) (by decide)
  · have held := ((setBodyAttribute_only e Overlay.savingAttribute (some "true")).trans
      (endEdit_only _ false)).trans (releaseSelection_only _)
    have saving : (e.enterSaving.log level message fields).state.mode ≠ .enabled := by
      show EditMode.saving ≠ .enabled
      decide
    exact ((turn_clearHover_false fun _ _ => saving).after (.of_only (mode_only _ .saving) (by decide))).before
      (.of_only held (by decide)) (held.mode_eq (by decide))
  · have hushed := ((endEdit_only e false).trans (hush_only _)).trans (releaseSelection_only _)
    have stripped := (strip_only ((e.endEdit false).hush.releaseSelection.clearHover false)).trans
      (enter_only _ .disabled)
    have disabled : (e.disable.log level message fields).state.mode ≠ .enabled := by
      rw [disable_eq]
      show (enter _ .disabled).state.mode ≠ .enabled
      rw [mode_enter]
      decide
    rw [disable_eq]
    exact ((turn_clearHover_false fun _ _ => disabled).after (.of_only stripped (by decide))).before
      (.of_only hushed (by decide)) (hushed.mode_eq (by decide))
  · exact .of_only (.refl [] _) (by decide)

/-- A command gives the hover up without a word only if it is quiet. -/
theorem turn_handleCommand (e : HeadlessEditor) (c : Command) :
    Turn (e.Quiet c) e (e.handleCommand c).1 := by
  have logged : ∀ {q : NodeId → Prop}, e.state.selected? = none → ∀ level message fields,
      Turn q e (e.log level message fields) :=
    fun _ _ _ _ => .of_only (log_only e _ _ _) (by decide)
  cases c with
  | setMode m => exact (turn_setMode e m).mono fun _ => .inl
  | updateText text =>
    exact withSelected_induction (P := Turn _ e) _ logged fun n _ =>
      .of_only (updateText_only e n text) (by decide)
  | updateStyles styles =>
    exact withSelected_induction (P := Turn _ e) _ logged fun n _ =>
      .of_only (updateStyles_only e n styles) (by decide)
  | updateClasses changes =>
    exact withSelected_induction (P := Turn _ e) _ logged fun n _ =>
      .of_only (updateClasses_only e n changes) (by decide)
  | deleteElement =>
    exact withSelected_induction (P := Turn _ e) _ logged fun n hn =>
      (turn_deleteElement hn).mono fun m hm => .inr ⟨rfl, hm⟩
  | clearSelection => exact .of_only (clearSelection_only e) (by decide)

/-! ## Operations -/

/-- An operation ends the hover of a node without a word: the mode is another one after it, or it carries out the
deletion of what the node is in. -/
def Hushes (e : HeadlessEditor) (o : Operation) (m : NodeId) : Prop :=
  (e.operate o).state.mode ≠ .enabled ∨ (o.command? e.config = some .deleteElement ∧ e.Buries m)

/-- Every operation but the news of changed elements takes a turn with the hover. -/
theorem turn_operate {o : Operation} (ho : o ≠ .contentChanged) : Turn (e.Hushes o) e (e.operate o) := by
  cases o with
  | contentChanged => exact absurd rfl ho
  | receive data fromParent =>
    rcases receive_cases e data fromParent with ⟨r, level, message, fields, -, heq⟩ | ⟨c, accepted, heq⟩
    · show Turn _ e (e.receive data fromParent).1
      rw [heq]
      exact .of_only (log_only e level message fields) (by decide)
    · have operated : e.operate (.receive data fromParent) = (e.handleCommand c).1 := heq
      rw [operated]
      refine (turn_handleCommand e c).mono fun m quiet => ?_
      rcases quiet with mode | ⟨rfl, buries⟩
      · exact .inl (operated ▸ mode)
      · exact .inr ⟨by rw [Operation.command?, accepted], buries⟩
  | command c =>
    refine (turn_handleCommand e c).mono fun m quiet => ?_
    rcases quiet with mode | ⟨rfl, buries⟩
    · exact .inl mode
    · exact .inr ⟨rfl, buries⟩
  | setMode m => exact (turn_setMode e m).mono fun _ => .inl
  | event ev => exact turn_handleEvent _ e ev
  | startEdit n => exact .of_only (startEdit_only e n) (by decide)
  | endEdit commit => exact .of_only (endEdit_only e commit) (by decide)

/-- The news of changed elements leaves a hover alone that is in the document. -/
theorem sameHover_contentChanged (h : ∀ n, e.state.hover = some n → e.page.document.isConnected n = true) :
    SameHover e e.contentChanged := by
  have changed := contentChanged_only e
  refine ⟨changed.config, changed.failing_eq (by decide), ?_,
    hoverMarked_congr changed (by decide) (by decide), changed.told_eq (by decide)⟩
  refine Option.ext fun n => ?_
  exact ((contentChanged_settled e).hover n).trans ⟨And.left, fun hn => ⟨hn, h n hn⟩⟩

/-- It forgets one that is not, and does not say so. -/
theorem forgets_contentChanged (hn : e.state.hover = some n) (out : e.page.document.isConnected n = false) :
    e.contentChanged.state.hover = none ∧ e.contentChanged.told .hover = e.told .hover := by
  refine ⟨?_, (contentChanged_only e).told_eq (by decide)⟩
  refine Option.eq_none_iff_forall_ne_some.2 fun m hm => ?_
  obtain ⟨hm, connected⟩ := ((contentChanged_settled e).hover m).1 hm
  cases hn.symm.trans hm
  exact absurd (out.symm.trans connected) Bool.false_ne_true

/-! ## Nothing is hovered while the editor is not enabled -/

/-- Something is hovered only while the editor is enabled. -/
def Calm (e : HeadlessEditor) : Prop :=
  e.state.mode ≠ .enabled → e.state.hover = none

theorem Calm.of_only (c : Calm e) (h : Only as e e') (hm : .mode ∉ as) (hh : .hover ∉ as) : Calm e' := by
  intro mode
  rw [h.hover_eq hh]
  rw [h.mode_eq hm] at mode
  exact c mode

/-- A turn without a change of mode keeps the calm. -/
theorem Calm.turn (c : Calm e) (t : Turn q e e') (mode : e'.state.mode = e.state.mode) : Calm e' := by
  intro hm
  rw [mode] at hm
  cases t with
  | stays same => exact same.hover.trans (c hm)
  | comes n enabled => exact absurd enabled hm
  | ends n _ hover => exact hover
  | lapses n _ _ hover => exact hover

theorem calm_setMode (m : EditMode) (c : Calm e) : Calm (e.setMode m).1 := by
  refine setMode_induction m c (fun _ _ _ _ h => h) ?_ ?_ ?_ ?_
  · intro _ mode
    rw [enable_eq, mode_enter] at mode
    exact absurd rfl mode
  · intro _ mode
    exact absurd (mode_enter _ .enabled) mode
  · intro _ _
    exact hover_clearHover _ false
  · intro _ _
    have stripped := (strip_only ((e.endEdit false).hush.releaseSelection.clearHover false)).trans
      (enter_only _ .disabled)
    rw [disable_eq]
    exact (stripped.hover_eq (by decide)).trans (hover_clearHover _ false)

theorem calm_handleCommand (command : Command) (c : Calm e) : Calm (e.handleCommand command).1 := by
  by_cases h : ∃ m, command = .setMode m
  · obtain ⟨m, rfl⟩ := h
    exact calm_setMode m c
  · have other : ∀ m, command ≠ .setMode m := fun m hm => h ⟨m, hm⟩
    exact c.turn (turn_handleCommand e command) ((handleCommand_only e other).mode_eq (by decide))

theorem calm_operate (o : Operation) (c : Calm e) : Calm (e.operate o) := by
  cases o with
  | contentChanged =>
    intro mode
    rw [show e.operate .contentChanged = e.contentChanged from rfl,
      (contentChanged_only e).mode_eq (by decide)] at mode
    refine Option.eq_none_iff_forall_ne_some.2 fun n hn => ?_
    have before := (((contentChanged_settled e).hover n).1 hn).1
    simp [c mode] at before
  | receive data fromParent =>
    exact receive_induction data fromParent (fun _ _ _ => c) fun command => calm_handleCommand command c
  | command command => exact calm_handleCommand command c
  | setMode m => exact calm_setMode m c
  | event ev =>
    exact c.turn (turn_handleEvent (fun _ => False) e ev) ((handleEvent_only e ev).mode_eq (by decide))
  | startEdit n => exact c.of_only (startEdit_only e n) (by decide) (by decide)
  | endEdit commit => exact c.of_only (endEdit_only e commit) (by decide) (by decide)

/-- Only while the editor is enabled something is hovered, whatever happens. -/
theorem calm_step (x : Step) (c : Calm e) : Calm (e.step x) := by
  cases x with
  | page x => exact c
  | clock time => exact c
  | channel failing => exact c
  | operate o => exact calm_operate o c

theorem calm_run (d : Document) (config : EditorConfig) (time : String) (xs : List Step) :
    Calm ((new d config time).run xs) :=
  run_induction (P := Calm) (fun _ => rfl) fun x _ _ c => calm_step x c

end InPlace.Editor

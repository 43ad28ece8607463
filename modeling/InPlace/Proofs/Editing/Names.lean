import InPlace.Proofs.Editing.Run

/-!
# Remembered names

The names that an editor remembers change in three ways only: those of an element are looked up and remembered,
those of a deleted element are forgotten, and so are those of all elements that are not in the page any more. What
these three keep, a run keeps (`Lasting`). The other pieces of the operations leave the names alone; there is one
statement for each of them, named for it.

Main statements: `Lasting.step`, `sound_lasting` and `Sound.identity_naming` (an identity that is remembered is the
one that the identity attribute stands for).
-/

namespace InPlace

namespace NameCache

section

variable {P N : Type} [Page P N] [DecidableEq N]

/-- The names that are given for an element carry its identity attribute. -/
theorem naming_raw (c : NameCache N) (page : P) (n : N) :
    (c.naming page n).raw = Page.attribute? page n identityAttribute := by
  unfold naming
  split
  · rename_i entry h
    simpa using (Option.filter_eq_some_iff.1 h).2
  · rfl

/-- What was remembered for an element is given again, as long as its identity attribute reads the same. -/
theorem naming_remember (c : NameCache N) {page page' : P} {n : N}
    (h : Page.attribute? page' n identityAttribute = Page.attribute? page n identityAttribute) :
    (c.remember page n).naming page' n = c.naming page n := by
  have entry : NameCache.entry? (c.remember page n) n = some (c.naming page n) := by
    simp [remember, entry?]
  have fresh : ((c.naming page n).raw == Page.attribute? page' n identityAttribute) = true := by
    rw [naming_raw, h]
    exact beq_self_eq_true _
  rw [naming, entry, Option.filter_some, if_pos fresh]

/-- Every remembered identity is the one that the remembered identity attribute stands for. -/
def Sound (c : NameCache N) : Prop :=
  ∀ entry ∈ c.entries, entry.2.identity = entry.2.raw.bind Identity.parse?

variable {c : NameCache N}

/-- The identity that is given for an element is the one that its identity attribute stands for now. -/
theorem Sound.identity_naming (h : c.Sound) (page : P) (n : N) : (c.naming page n).identity =
    (Page.attribute? page n identityAttribute).bind Identity.parse? := by
  rw [← naming_raw c page n]
  unfold naming
  split
  · rename_i found hfound
    obtain ⟨entry, hentry, rfl⟩ := Option.map_eq_some_iff.1 (Option.filter_eq_some_iff.1 hfound).1
    exact h entry (List.mem_of_find?_eq_some hentry)
  · rfl

omit [DecidableEq N] in
theorem Sound.filter (h : c.Sound) (p : N × Naming → Bool) (seen : List N) :
    Sound { entries := c.entries.filter p, seen } :=
  fun entry hentry => h entry (List.mem_filter.1 hentry).1

theorem entries_note (c : NameCache N) (n : N) : (c.note n).entries = c.entries := by
  unfold note
  split <;> rfl

theorem Sound.note (h : c.Sound) (n : N) : (c.note n).Sound := by
  unfold Sound
  rw [entries_note]
  exact h

theorem Sound.forget (h : c.Sound) (n : N) : (c.forget n).Sound :=
  (h.note n).filter _ _

/-- Names that are remembered are still right when others are forgotten. -/
theorem Sound.prune (h : c.Sound) (live : List N) : (c.prune live).Sound := by
  have noted : ∀ (ns : List N) (c : NameCache N), c.Sound → (ns.foldl NameCache.note c).Sound := by
    intro ns
    induction ns with
    | nil => exact fun _ h => h
    | cons n ns ih => exact fun c h => ih _ (h.note n)
  exact (noted live c h).filter _ _

/-- Names that are read anew are right. -/
theorem Sound.remember (h : c.Sound) (page : P) (n : N) : (c.remember page n).Sound := by
  intro entry hentry
  rcases List.mem_cons.1 hentry with rfl | hentry
  · dsimp only
    rw [naming_raw, h.identity_naming]
  · exact h.forget n entry hentry

end

/-- What a predicate on remembered names needs so that every operation keeps it. -/
structure Lasting (Q : NameCache NodeId → Prop) : Prop where
  remember : ∀ {c : NameCache NodeId}, Q c → ∀ (page : Headless) (n : NodeId), Q (c.remember page n)
  forget : ∀ {c : NameCache NodeId}, Q c → ∀ n, Q (c.forget n)
  prune : ∀ {c : NameCache NodeId}, Q c → ∀ live, Q (c.prune live)

theorem sound_lasting : Lasting Sound where
  remember h page n := h.remember page n
  forget h n := h.forget n
  prune h live := h.prune live

end NameCache

namespace Editor

section

variable (e : HeadlessEditor) (n : NodeId)

/-! ## Pieces that leave the names alone -/

theorem names_tryPage (change : Headless → Except PageError Headless) (failure : String)
    (fields : List (String × String)) : (e.tryPage change failure fields).names = e.names := by
  unfold tryPage
  split <;> rfl

theorem names_tell (k : Notice) : (e.tell k).names = e.names := by
  unfold tell
  split <;> rfl

theorem names_setAttribute (name value failure : String) :
    (e.setAttribute n name value failure).names = e.names :=
  names_tryPage e _ _ _

theorem names_listenTo : (e.listenTo n).names = e.names :=
  Forest.foldl_reading (r := Editor.names) (fun e _ => names_tryPage e _ _ _) ElementEvent.all e

theorem names_opened (text : String) (i : Option Identity) : (e.opened n text i).names = e.names := by
  unfold opened log
  dsimp only
  rw [names_listenTo]
  exact names_tryPage e _ _ _

theorem names_announce : e.announce.names = e.names := by
  rcases announce_cases e with ⟨-, h⟩ | ⟨-, h⟩ | ⟨-, -, h⟩
  · rw [h]
  · rw [h]
    rfl
  · rw [h, names_tell]
    rfl

theorem names_clearHover (notify : Bool) : (e.clearHover notify).names = e.names := by
  rcases clearHover_cases e notify with ⟨-, h⟩ | ⟨n, h | h⟩
  · rw [h]
  · rw [h]
    rfl
  · rw [h, names_tell]
    rfl

theorem names_markHovered : (e.markHovered n).names = e.names := by
  unfold markHovered
  dsimp only
  split
  · rw [names_setAttribute, names_setAttribute]
  · exact names_setAttribute e n _ _ _

theorem names_releaseSelection : e.releaseSelection.names = e.names := by
  unfold releaseSelection
  split
  · rfl
  · dsimp only
    split
    · rw [names_setAttribute]
      rfl
    · rfl

theorem names_select : (e.select n).names = e.names := by
  unfold select
  dsimp only
  rw [names_setAttribute, names_releaseSelection]

theorem names_endEdit (commit : Bool) : (e.endEdit commit).names = e.names := by
  cases h : e.state.session with
  | none => rw [endEdit_of_none h]
  | some s =>
    rw [endEdit_of_some h]
    unfold reportEdit
    rw [names_tell]
    cases commit <;> rfl

theorem names_listen : e.listen.names = e.names := by
  unfold listen
  split
  · rfl
  · exact Forest.foldl_reading (r := Editor.names) (fun e _ => names_tryPage e _ _ _) DocumentEvent.all e

theorem names_unlisten : e.unlisten.names = e.names := by
  unfold unlisten
  split <;> rfl

theorem names_enter (m : EditMode) : (e.enter m).names = e.names :=
  names_tell _ _

theorem names_injectStylesheet (id css : String) : (e.injectStylesheet id css).names = e.names :=
  names_tryPage _ _ _ _

theorem names_fitOut : e.fitOut.names = e.names := by
  unfold fitOut
  dsimp only
  rw [names_injectStylesheet]
  exact (names_listen _).trans (names_injectStylesheet e _ _)

theorem names_enterSaving : e.enterSaving.names = e.names := by
  unfold enterSaving
  dsimp only
  rw [names_clearHover, names_releaseSelection, names_endEdit]
  rfl

theorem names_disable : e.disable.names = e.names := by
  have hushed : (e.endEdit false).hush.names = e.names :=
    (names_unlisten (e.endEdit false)).trans (names_endEdit e false)
  rw [disable_eq, names_enter]
  exact (names_clearHover _ false).trans ((names_releaseSelection _).trans hushed)

theorem names_setMode (m : EditMode) : (e.setMode m).1.names = e.names := by
  refine setMode_induction (P := fun e' => e'.names = e.names) m rfl (fun _ _ _ _ h => h) (fun _ => ?_)
    (fun _ => names_enter _ _) (fun _ => names_enterSaving e) fun _ => names_disable e
  rw [enable_eq, names_enter, names_fitOut]

theorem names_updateStyles (styles : List (String × String)) :
    (e.updateStyles n styles).names = e.names :=
  Forest.foldl_reading (r := Editor.names) (fun e _ => names_tryPage e _ _ _) styles e

theorem names_updateClasses (changes : ClassChanges) : (e.updateClasses n changes).names = e.names :=
  (Forest.foldl_reading (r := Editor.names) (fun e _ => names_tryPage e _ _ _) changes.add _).trans
    (Forest.foldl_reading (r := Editor.names) (fun e _ => names_tryPage e _ _ _) changes.remove e)

theorem names_letGo : (e.letGo n).names = e.names := by
  rcases letGo_cases e n with ⟨-, h | h⟩ | ⟨-, h | h⟩
  · rw [h, names_endEdit]
  · rw [h, names_clearHover, names_endEdit]
  · rw [h]
  · rw [h, names_clearHover]

theorem names_keyDown (key : String) : (e.keyDown key).names = e.names := by
  rcases keyDown_cases e key with h | ⟨-, h⟩
  · rw [h]
  · rw [h, names_tell, names_clearHover, names_releaseSelection]

theorem names_input : (e.input n).names = e.names := by
  rcases input_cases e n with h | ⟨s, -, -, h⟩
  · rw [h]
  · rw [h, names_tell]

/-! ## Pieces that look up and remember -/

theorem names_metadata : (e.metadata n).2.names = e.names.remember e.page n :=
  rfl

/-- What the host is told of an element is remembered. -/
theorem names_tellAbout (detail : Bool) (notice : Descriptor → Notice) :
    (e.tellAbout n detail notice).names = e.names.remember e.page n := by
  unfold tellAbout
  dsimp only
  rw [names_tell]
  exact names_metadata e n

end

end Editor

open Editor

namespace NameCache.Lasting

variable {Q : NameCache NodeId → Prop} (l : Lasting Q) {e : HeadlessEditor}

include l

theorem metadata (n : NodeId) (h : Q e.names) : Q (e.metadata n).2.names := by
  rw [names_metadata]
  exact l.remember h _ n

theorem tellAbout (n : NodeId) (detail : Bool) (notice : Descriptor → Notice) (h : Q e.names) :
    Q (e.tellAbout n detail notice).names := by
  rw [names_tellAbout]
  exact l.remember h _ n

theorem hoverElement (n : NodeId) (h : Q e.names) : Q (e.hoverElement n).names := by
  refine l.tellAbout n false _ ?_
  show Q ((e.clearHover false).markHovered n).names
  rw [names_markHovered, names_clearHover]
  exact h

theorem beginEdit (n : NodeId) (h : Q e.names) : Q (e.beginEdit n).names := by
  have known := l.metadata n h
  rcases beginEdit_cases e n with ⟨page, -, heq⟩ | ⟨fault, heq⟩
  · rw [heq, openEdit_eq]
    refine l.tellAbout n true _ (l.tellAbout n false _ ?_)
    rw [names_opened]
    exact known
  · rw [heq]
    exact known

theorem startEdit (n : NodeId) (h : Q e.names) : Q (e.startEdit n).names := by
  unfold Editor.startEdit
  split
  · exact h
  · refine l.beginEdit n ?_
    rw [names_endEdit]
    exact h

theorem clickElement (n : NodeId) (hs : e.state.session = none) (h : Q e.names) :
    Q (e.clickElement n).names := by
  have known := l.metadata n h
  have chosen : Q (e.chosen n).names := by
    refine l.tellAbout n true _ ?_
    rw [names_select]
    exact known
  rcases clickElement_cases hs n with heq | heq | heq
  · rw [heq]
    exact known
  · rw [heq]
    exact chosen
  · rw [heq]
    exact l.beginEdit n chosen

theorem click (target : NodeId) (h : Q e.names) : Q (e.click target).1.names := by
  have ended : Q (e.endEdit true).names := by
    rw [names_endEdit]
    exact h
  rcases click_cases e target with ⟨-, heq⟩ | ⟨-, heq | ⟨n, -, heq⟩⟩
  · rwa [heq]
  · rw [heq, names_tell, names_releaseSelection]
    exact ended
  · rw [heq]
    exact l.clickElement n (session_endEdit e true) ended

theorem pointerOver (target : NodeId) (h : Q e.names) : Q (e.pointerOver target).names := by
  rcases pointerOver_cases e target with heq | ⟨-, heq | ⟨n, -, heq | heq⟩⟩
  · rwa [heq]
  · rw [heq, names_clearHover]
    exact h
  · rw [heq, names_clearHover]
    exact l.metadata n h
  · rw [heq]
    exact l.hoverElement n (l.metadata n h)

theorem deleteElement (n : NodeId) (h : Q e.names) : Q (e.deleteElement n).1.names := by
  have kept : Q (e.letGo n).names := by
    rw [names_letGo]
    exact h
  rcases deleteElement_cases e n with heq | ⟨page, -, heq⟩
  · rw [heq]
    exact kept
  · rw [heq]
    exact l.forget kept n

theorem handleCommand (c : Command) (h : Q e.names) : Q (e.handleCommand c).1.names := by
  have logged : e.state.selected? = none → ∀ level message fields, Q (e.log level message fields).names :=
    fun _ _ _ _ => h
  cases c with
  | setMode m => exact (names_setMode e m).symm ▸ h
  | updateText text =>
    exact withSelected_induction (P := fun e => Q e.names) _ logged fun n _ => h
  | updateStyles styles =>
    exact withSelected_induction (P := fun e => Q e.names) _ logged fun n _ =>
      (names_updateStyles e n styles).symm ▸ h
  | updateClasses changes =>
    exact withSelected_induction (P := fun e => Q e.names) _ logged fun n _ =>
      (names_updateClasses e n changes).symm ▸ h
  | deleteElement =>
    exact withSelected_induction (P := fun e => Q e.names) _ logged fun n _ => l.deleteElement n h
  | clearSelection =>
    show Q (((e.endEdit false).releaseSelection).tell .selectionCleared).names
    rw [names_tell, names_releaseSelection, names_endEdit]
    exact h

theorem handleEvent (ev : PageEvent NodeId) (h : Q e.names) : Q (e.handleEvent ev).1.names := by
  have ended : ∀ commit, Q (e.endEdit commit).names := fun commit => (names_endEdit e commit).symm ▸ h
  cases ev with
  | click target => exact l.click target h
  | submit target => exact h
  | keyDown key => exact (names_keyDown e key).symm ▸ h
  | pointerOver target => exact l.pointerOver target h
  | scroll => exact (names_clearHover e true).symm ▸ h
  | input element => exact (names_input e element).symm ▸ h
  | blur element =>
    rw [handleEvent_blur]
    split
    · exact ended true
    · exact h
  | editKeyDown element key =>
    rw [handleEvent_editKeyDown]
    split
    · exact ended false
    · exact h

/-- What holds of the names holds after any operation. -/
theorem operate (o : Operation) (h : Q e.names) : Q (e.operate o).names := by
  cases o with
  | contentChanged =>
    show Q e.contentChanged.names
    rw [contentChanged_eq, names_announce]
    have pruned := l.prune h (Page.identified e.page)
    unfold Editor.pruned dropLostHover
    split
    · exact pruned
    · exact pruned
  | receive data fromParent =>
    exact receive_induction (P := fun e => Q e.names) data fromParent (fun _ _ _ => h)
      fun c => l.handleCommand c h
  | command c => exact l.handleCommand c h
  | setMode m => exact (names_setMode e m).symm ▸ h
  | event ev => exact l.handleEvent ev h
  | startEdit n => exact l.startEdit n h
  | endEdit commit => exact (names_endEdit e commit).symm ▸ h

/-- What looking up and forgetting keep, every step of a run keeps. -/
theorem step (x : Step) (h : Q e.names) : Q (e.step x).names := by
  cases x with
  | page x => exact h
  | clock time => exact h
  | channel failing => exact h
  | operate o => exact l.operate o h

end NameCache.Lasting

end InPlace

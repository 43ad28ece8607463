import InPlace.Browser.Lifecycle

/-!
# What an event can do

Whatever an event raises, in the end it is an editor that reacts, an entry on the console or a note of the page's own.
So what these three keep is kept by every event (`Lasting.dispatch`), to whatever depth it raises others. While no
editor is idle nothing reacts, and an event leaves the page as it is (`calm_dispatch`): this is why an editor that moves
the focus finds the page afterwards as it left it.

Main statements: `Lasting.dispatch`, `calm_dispatch` and `Lasting.tellObservers`.
-/

namespace InPlace.Browser

variable {b b' b'' : Browser} {id : Nat} {r : Resident}

/-! ## What stays where something is only said -/

/-- One browser differs from another in what was said and noted only. -/
structure Undisturbed (b b' : Browser) : Prop where
  document : b'.document = b.document
  window : b'.window = b.window
  listeners : b'.listeners = b.listeners
  observers : b'.observers = b.observers
  editors : b'.editors = b.editors
  started : b'.started = b.started
  handle : b'.handle = b.handle
  running : b'.running = b.running
  reactions : b'.reactions = b.reactions

theorem Undisturbed.refl (b : Browser) : b.Undisturbed b :=
  ⟨rfl, rfl, rfl, rfl, rfl, rfl, rfl, rfl, rfl⟩

theorem Undisturbed.trans (h : b.Undisturbed b') (h' : b'.Undisturbed b'') : b.Undisturbed b'' where
  document := h'.document.trans h.document
  window := h'.window.trans h.window
  listeners := h'.listeners.trans h.listeners
  observers := h'.observers.trans h.observers
  editors := h'.editors.trans h.editors
  started := h'.started.trans h.started
  handle := h'.handle.trans h.handle
  running := h'.running.trans h.running
  reactions := h'.reactions.trans h.reactions

theorem undisturbed_log (b : Browser) (entry : LogEntry) : b.Undisturbed (b.log entry) := by
  unfold log
  split
  · exact ⟨rfl, rfl, rfl, rfl, rfl, rfl, rfl, rfl, rfl⟩
  · exact .refl b

theorem posted_log (b : Browser) (entry : LogEntry) : (b.log entry).posted = b.posted := by
  unfold log
  split <;> rfl

theorem undisturbed_postAs {w : Wiring} {e : Envelope} (h : b.postAs w e = .ok b') : b.Undisturbed b' := by
  unfold postAs at h
  cases w with
  | loose =>
    cases h
    exact ⟨rfl, rfl, rfl, rfl, rfl, rfl, rfl, rfl, rfl⟩
  | wired id origin =>
    unfold post at h
    dsimp only at h
    split at h
    · cases h
    · cases h
    · cases h
      exact ⟨rfl, rfl, rfl, rfl, rfl, rfl, rfl, rfl, rfl⟩

theorem seat?_of_editors (h : b'.editors = b.editors) (id : Nat) : b'.seat? id = b.seat? id := by
  unfold seat?
  rw [h]

/-- What an editor at work has done to the page, which it leaves to itself. -/
theorem enter_fst (b : Browser) (deal : Dispatcher) (id : Nat) (r : Resident) {α : Type} (act : Act α) :
    letI e := (act (page (.wired id r.origin) deal) ⟨b.putSeat id .working, r.config, r.state, r.names⟩).1
    (b.enter deal id r act).1 = e.page.putSeat id (.idle { r with state := e.state, names := e.names }) :=
  rfl

/-! ## What an editor says -/

section

variable {w : Wiring} {deal : Dispatcher} {e : Editor Browser NodeId} {p : Browser}

/-- To tell the host something changes the page alone, and disturbs nothing in it. -/
theorem tell_eq (w : Wiring) (deal : Dispatcher) (e : Editor Browser NodeId) (n : Notice) : letI := page w deal
    ∃ p, e.tell n = { e with page := p } ∧ e.page.Undisturbed p := by
  let := page w deal
  unfold Editor.tell
  split
  · rename_i p hp
    exact ⟨p, rfl, undisturbed_postAs hp⟩
  · exact ⟨_, rfl, undisturbed_log e.page _⟩

theorem tryPage_ok {change : Browser → Except PageError Browser} (h : change e.page = .ok p) (failure : String)
    (fields : List (String × String)) : letI := page w deal
    e.tryPage change failure fields = { e with page := p } := by
  unfold Editor.tryPage
  rw [h]

/-- A change that fails is logged. -/
theorem tryPage_error {change : Browser → Except PageError Browser} {fault : PageError}
    (h : change e.page = .error fault) (failure : String) (fields : List (String × String)) : letI := page w deal
    e.tryPage change failure fields =
      { e with page := e.page.log ⟨.warn, failure, fields ++ [("error", fault.message)]⟩ } := by
  unfold Editor.tryPage
  rw [h]
  rfl

/-- Entering a mode says so. -/
theorem enter_eq (w : Wiring) (deal : Dispatcher) (e : Editor Browser NodeId) (m : EditMode) : letI := page w deal
    ∃ p, e.enter m = { e with page := p, state := { e.state with mode := m } } ∧ e.page.Undisturbed p :=
  tell_eq w deal { e with state := { e.state with mode := m } } (.modeChanged m)

/-- That the content has changed is a matter of names, of the hover and of being ready. -/
theorem contentChanged_eq (w : Wiring) (deal : Dispatcher) (e : Editor Browser NodeId) : letI := page w deal
    ∃ p names hover ready, e.contentChanged =
      { e with page := p, names := names, state := { e.state with hover := hover, ready := ready } } ∧
      e.page.Undisturbed p ∧ (e.state.hover = none → hover = none) := by
  let := page w deal
  have announced : ∀ e : Editor Browser NodeId, ∃ p ready,
      e.announce = { e with page := p, state := { e.state with ready := ready } } ∧ e.page.Undisturbed p := by
    intro e
    unfold Editor.announce
    split
    · exact ⟨e.page, _, rfl, .refl e.page⟩
    · split
      · exact ⟨_, _, rfl, undisturbed_log e.page _⟩
      · let told : Editor Browser NodeId := { e with state := { e.state with ready := true } }.log .debug "Agent ready"
          [("count", toString (Page.identified e.page).length)]
        obtain ⟨p, hp, said⟩ := tell_eq w deal told
          (.ready ⟨(Page.identified e.page).length, Page.location? told.page, Page.timestamp told.page⟩)
        exact ⟨p, true, hp, (undisturbed_log e.page _).trans said⟩
  have dropped : ∀ e : Editor Browser NodeId, ∃ hover,
      e.dropLostHover = { e with state := { e.state with hover := hover } } ∧ (e.state.hover = none → hover = none) := by
    intro e
    unfold Editor.dropLostHover
    split
    · exact ⟨e.state.hover, rfl, id⟩
    · exact ⟨none, rfl, fun _ => rfl⟩
  obtain ⟨hover, h₁, lost⟩ := dropped { e with names := e.names.prune (Page.identified e.page) }
  obtain ⟨p, ready, h₂, said⟩ := announced
    { e with names := e.names.prune (Page.identified e.page), state := { e.state with hover := hover } }
  refine ⟨p, e.names.prune (Page.identified e.page), hover, ready, ?_, said, lost⟩
  unfold Editor.contentChanged
  rw [h₁]
  exact h₂

end

/-! ## What is kept by every event -/

/-- What an editor does when it is told of something. -/
inductive Reacts : {α : Type} → Act α → Prop where
  | handle (event : PageEvent NodeId) : Reacts (Act.handle event)
  | receive (content : Json) (fromParent : Bool) : Reacts (Act.receive content fromParent)
  | contentChanged : Reacts Act.contentChanged

/-- What the pieces of a dispatch keep, where events that an editor raises are dispatched well. -/
structure Lasting (P : Browser → Prop) (Well : Dispatcher → Prop) : Prop where
  running : ∀ b cs, P b → P { b with running := cs }
  reacted : ∀ b rs, P b → P { b with reacted := rs }
  log : ∀ b entry, P b → P (b.log entry)
  enter : ∀ (deal : Dispatcher), Well deal → ∀ b id r, P b → b.seat? id = some (.idle r) →
    ∀ {α : Type} (act : Act α), Reacts act → P (b.enter deal id r act).1

section

variable {P : Browser → Prop} {Well : Dispatcher → Prop} {deal : Dispatcher}

/-- What lasts does so when an editor is told of changes. -/
theorem Lasting.enterIfIdle (l : Lasting P Well) (hw : Well deal) (h : P b) (id : Nat) :
    P (b.enterIfIdle deal id .contentChanged) := by
  unfold Browser.enterIfIdle
  split
  · rename_i r hr
    exact l.enter deal hw b id r h hr _ .contentChanged
  · exact h

theorem Lasting.notify (l : Lasting P Well) (hw : Well deal) (h : P b) : P (b.notify deal) := by
  unfold Browser.notify
  split
  · exact l.enterIfIdle hw h _
  · exact h

/-- What lasts does so when an editor reacts to an event. -/
theorem Lasting.reactAs (l : Lasting P Well) (hw : Well deal) (h : P b) (id : Nat) (e : Event)
    (meaning : Option (PageEvent NodeId)) : P (b.reactAs deal id e meaning).1 := by
  unfold Browser.reactAs
  split
  · rename_i event r hr
    exact l.enter deal hw b id r h hr _ (.handle event)
  · exact l.log b _ h
  · exact h

/-- What lasts does so when an editor receives a message. -/
theorem Lasting.receiveAs (l : Lasting P Well) (hw : Well deal) (h : P b) (id : Nat) (e : Event) :
    P (b.receiveAs deal id e) := by
  unfold Browser.receiveAs
  split
  · rename_i content sender r _ hr
    exact l.enter deal hw b id r h hr _ (.receive _ _)
  · exact l.log b _ h
  · exact h

/-- What lasts does so when the page reacts. -/
theorem Lasting.react (l : Lasting P Well) (hw : Well deal) (hd : ∀ b e, P b → P (deal b e).1) (h : P b)
    (r : Reaction) : P (b.react deal r) := by
  unfold Browser.react outcomeOf
  cases r with
  | fire e => exact l.reacted _ _ (hd b e h)
  | notify => exact l.reacted _ _ (l.notify hw h)
  | probe => exact l.reacted _ _ h

theorem Lasting.perform (l : Lasting P Well) (hw : Well deal) (hd : ∀ b e, P b → P (deal b e).1) (h : P b)
    (c : Callback) (place : Target) (e : Event) : P (b.perform deal c place e).1 := by
  unfold Browser.perform
  cases c with
  | hook k =>
    dsimp only
    split
    · exact l.react hw hd h _
    · exact h
  | documentEvents id => exact l.reactAs hw h id e _
  | elementEvents id =>
    cases place with
    | node n => exact l.reactAs hw h id e _
    | window => exact h
  | messages id => exact l.receiveAs hw h id e
  | contentLoaded id => exact l.enterIfIdle hw h id

/-- What lasts does so when a listener is called. -/
theorem Lasting.call (l : Lasting P Well) (hw : Well deal) (hd : ∀ b e, P b → P (deal b e).1) (h : P b)
    (c : Callback) (place : Target) (e : Event) : P (b.call deal c place e).1 := by
  unfold Browser.call
  split
  · exact h
  · exact l.running _ _ (l.perform hw hd (l.running b _ h) c place e)

/-- What each reaction keeps is kept by an event and by all that it raises. -/
theorem Lasting.dispatch (l : Lasting P Well) (hw : ∀ k, Well (dispatch k)) (k : Nat) (h : P b) (e : Event) :
    P (dispatch k b e).1 := by
  -- on the depth; within it over the stops, and at each of them over its listeners
  induction k generalizing b e with
  | zero => exact h
  | succ k ih =>
    have called : ∀ (now : Browser × Response) (x : Listener), P now.1 →
        P (callListener (Browser.dispatch k) e now x).1 := by
      intro now x hnow
      unfold callListener
      split
      · exact l.call (hw k) (fun b e h => ih h e) hnow x.callback x.place e
      · exact hnow
    have stopped : ∀ (now : Browser × Response) (s : Stop), P now.1 →
        P (makeStop (Browser.dispatch k) e now s).1 := by
      intro now s hnow
      unfold makeStop
      split
      · exact hnow
      · exact List.foldlRecOn (motive := fun now : Browser × Response => P now.1) _ _ hnow
          fun now hnow x _ => called now x hnow
    exact List.foldlRecOn (motive := fun now : Browser × Response => P now.1) _ _ h
      fun now hnow s _ => stopped now s hnow

end

/-! ## Events while every editor is at work -/

/-- Every editor is at work. -/
def Busy (b : Browser) : Prop :=
  ∀ id r, b.seat? id ≠ some (.idle r)

/-- Where every editor is at work an event leaves the page as it is and sends nothing. -/
def Calm (dispatch : Dispatcher) : Prop :=
  ∀ b e, b.Busy → b.Undisturbed { (dispatch b e).1 with running := b.running } ∧ (dispatch b e).1.posted = b.posted

/-- Events are dispatched calmly, however deep. -/
theorem calm_dispatch (k : Nat) : Calm (dispatch k) := by
  intro b e hb
  have lasting : Lasting (fun b' => b.Undisturbed { b' with running := b.running } ∧ b'.posted = b.posted)
      fun _ => True := by
    refine ⟨fun _ _ h => h, fun b' rs h => ⟨?_, h.2⟩, fun b' entry h => ⟨?_, (posted_log b' entry).trans h.2⟩, ?_⟩
    · exact h.1.trans ⟨rfl, rfl, rfl, rfl, rfl, rfl, rfl, rfl, rfl⟩
    · have said := undisturbed_log b' entry
      exact h.1.trans ⟨said.document, said.window, said.listeners, said.observers, said.editors, said.started,
        said.handle, rfl, said.reactions⟩
    · intro _ _ b' id r h hr _ act _
      have seat : b'.seat? id = b.seat? id := seat?_of_editors h.1.editors id
      exact absurd (seat.symm.trans hr) (hb id r)
  exact lasting.dispatch (fun _ => trivial) k ⟨.refl b, rfl⟩ e

theorem calm_fire : Calm fire :=
  fun b e hb => calm_dispatch b.depth b e hb

section

variable {P : Browser → Prop}

theorem Lasting.fire (l : Lasting P Calm) (h : P b) (e : Event) : P (b.fire e).1 :=
  l.dispatch calm_dispatch b.depth h e

/-- The editors that watch the document are told of what was done to it. -/
theorem Lasting.tellObservers (l : Lasting P Calm)
    (hc : ∀ b, P b → P (b.onDocument fun d => { d with changed := false })) (h : P b) : P b.tellObservers := by
  unfold Browser.tellObservers
  split
  · exact List.foldlRecOn (motive := P) _ _ (hc b h) fun b h id _ => l.enterIfIdle calm_fire h id
  · exact h

end

end InPlace.Browser

import InPlace.Proofs.Browser.ModeCycles

/-!
# Messages that ask for modes

The host changes the mode of an editor by messages. Between a message that enables the editor and one that disables it
again the document is dressed; afterwards it is what it was, but for the cursor of the body.

Main statement: `hearAll_neutral`.
-/

namespace InPlace.Browser

/-- A document is as it was, but for a body that may have lost its cursor and its mark of the saving mode, with its
inline style written anew. Nodes that were made meanwhile are not in it. -/
structure Document.Neutral (d d' : Document) : Prop where
  content : ∀ n < d.nodes.fresh, d.body? ≠ some n → d'.nodes.content? n = d.nodes.content? n
  body : ∀ n e, d.body? = some n → d.element? n = some e →
    ∃ e', d'.element? n = some e' ∧ (e' = e ∨ e.Uncursored e')
  parent : ∀ n < d.nodes.fresh, d'.nodes.parent? n = d.nodes.parent? n
  children : ∀ n < d.nodes.fresh, d'.nodes.children n = d.nodes.children n
  inside : ∀ n ∈ d'.preorder Document.top, n ∈ d.preorder Document.top
  focused : d'.focused = d.focused

/-- The event of a message that arrives. -/
def messageEvent (content : Option Json) (sender : Option WindowRef) : Event :=
  ⟨"message", .window, .message content sender⟩

/-- A message arrives, and then those that watch the document are told what became of it. -/
def hear (b : Browser) (m : Option Json × Option WindowRef) : Browser :=
  (b.fire (messageEvent m.1 m.2)).1.tellObservers

/-- Messages arrive one after the other. -/
def hearAll (b : Browser) (ms : List (Option Json × Option WindowRef)) : Browser :=
  ms.foldl hear b

/-- If the editor acts on a message at all, then by changing its mode. -/
def AsksForMode (b : Browser) (config : EditorConfig) (m : Option Json × Option WindowRef) : Prop :=
  ∀ content, m.1 = some content → ∀ c,
    (TrustPolicy.mk config.hostTag).accept content.transferred (b.window.isParent m.2) = .ok c → ∃ mode, c = .setMode mode

/-- A listener that is told of messages is the editor's, or it is the page's own and raises no event. -/
def Hears (b : Browser) (id : Nat) (l : Listener) : Prop :=
  l.callback = .messages id ∨ ∃ k, l.callback = .hook k ∧ ∀ e, b.reactions[k]? ≠ some (.fire e)

/-- An editor is disabled and has nothing to do, and there is no other that messages are told to. -/
structure Rests (b : Browser) (id : Nat) (r : Resident) : Prop where
  seat : b.seat? id = some (.idle r)
  mode : r.state.mode = .disabled
  free : r.state.HoldsNothing
  listening : r.state.listening = false
  heard : ∀ l ∈ b.listeners, l.place = .window → l.type = "message" → b.Hears id l

/-- A page without an editor. -/
structure Unattended (b : Browser) : Prop where
  rooted : b.document.Rooted
  editors : b.editors = []
  observers : b.observers = []
  handle : b.handle = none
  listeners : ∀ l ∈ b.listeners, ∃ k, l.callback = .hook k

/-- The message by which the host asks for a mode. -/
def modeRequest (m : EditMode) : Option Json × Option WindowRef :=
  (some (Envelope.toJson ⟨(Command.setMode m).kind, .ofFields [("state", .str m.text)], some hostTag⟩), some .frame)

section

variable {b b' p : Browser} {d : Document} {ls : List Listener} {id n : Nat} {r : Resident} {deal : Dispatcher}
  {w : Wiring} {e : Editor Browser NodeId} {cs : List Callback}

/-! ## The browser between two messages -/

theorem Phase.rebase (h : b.Phase d ls n e) (hd : p.document = e.page.document)
    (hl : p.listeners = e.page.listeners) : p.Phase d ls n { e with page := p } where
  free := h.free
  listening := h.listening
  stage := by
    obtain ⟨sheets, stage, hs⟩ := h.stage
    exact ⟨sheets, ⟨⟨rfl, rfl, rfl, rfl, rfl, rfl⟩, hd ▸ stage.document, hl.trans stage.listeners⟩, hs⟩
  body hm m x hb hx := by
    obtain ⟨x', hx', same⟩ := h.body hm m x hb hx
    exact ⟨x', hd ▸ hx', same⟩

/-- The browser `b'` that came of `b` by messages that ask for modes. -/
structure Cycle (b : Browser) (id : Nat) (r : Resident) (b' : Browser) : Prop where
  window : b'.window = b.window
  reactions : b'.reactions = b.reactions
  phase : ∃ r', b'.seat? id = some (.idle r') ∧ r'.config = r.config ∧
    b'.Phase b.document b.listeners id ⟨b', r'.config, r'.state, r'.names⟩

/-- The editor does something that leads from phase to phase. -/
theorem Cycle.enter (h : b.Cycle id r b') {q : Resident} (hq : b'.seat? id = some (.idle q)) {α : Type} {act : Act α}
    (hact : ∀ p : Browser, q.config = r.config →
      p.Phase b.document b.listeners id ⟨p, q.config, q.state, q.names⟩ →
      p.Phase b.document b.listeners id (act (page (.wired id q.origin) deal) ⟨p, q.config, q.state, q.names⟩).1) :
    b.Cycle id r (b'.enter deal id q act).1 := by
  obtain ⟨r', hseat, hconfig, phase⟩ := h.phase
  obtain rfl : r' = q := by
    rw [hseat] at hq
    cases hq
    rfl
  have after := hact (b'.putSeat id .working) hconfig (phase.rebase rfl rfl)
  -- the act is done in the page with the seat at work, and its outcome is put back into the seat
  obtain ⟨e', he'⟩ : ∃ e', e' =
      (act (page (.wired id r'.origin) deal) ⟨b'.putSeat id .working, r'.config, r'.state, r'.names⟩).1 := ⟨_, rfl⟩
  have entered : (b'.enter deal id r' act).1 =
      e'.page.putSeat id (.idle { r' with state := e'.state, names := e'.names }) := by
    rw [he']
    rfl
  rw [← he'] at after
  obtain ⟨sheets, stage, -⟩ := after.stage
  have moved := after.rebase (p := e'.page.putSeat id (.idle { r' with state := e'.state, names := e'.names })) rfl rfl
  rw [entered]
  refine ⟨stage.frame.window.trans h.window, stage.frame.reactions.trans h.reactions,
    ⟨{ r' with state := e'.state, names := e'.names }, ?_, hconfig,
      ⟨moved.free, moved.listening, moved.stage, moved.body⟩⟩⟩
  rw [seat?_putSeat, if_pos rfl, seat?_of_editors stage.frame.editors, seat?_putSeat, if_pos rfl, hseat]
  rfl

/-! ## News of the document -/

/-- Told of changes, an editor in a cycle goes on with it. -/
theorem Cycle.enterIfIdle (h : b.Cycle id r b') (other : Nat) :
    b.Cycle id r (b'.enterIfIdle deal other .contentChanged) := by
  unfold Browser.enterIfIdle
  split
  · rename_i q hq
    by_cases hid : other = id
    · subst hid
      refine h.enter hq fun p _ phase => ?_
      obtain ⟨p', names, hover, ready, he, said, lost⟩ := contentChanged_eq (.wired other q.origin) deal
        ⟨p, q.config, q.state, q.names⟩
      have spoken := phase.undisturbed said
      show p.Phase _ _ _ (@Editor.contentChanged _ _ (page (.wired other q.origin) deal) _ _)
      rw [he]
      exact ⟨⟨spoken.free.selection, lost phase.free.hover, spoken.free.session⟩, spoken.listening, spoken.stage,
        spoken.body⟩
    · obtain ⟨r', hseat, hconfig, phase⟩ := h.phase
      obtain ⟨p', names, hover, ready, he, said, -⟩ := contentChanged_eq (.wired other q.origin) deal
        ⟨b'.putSeat other .working, q.config, q.state, q.names⟩
      have entered : (b'.enter deal other q .contentChanged).1 = p'.putSeat other
          (.idle { q with state := { q.state with hover := hover, ready := ready }, names := names }) := by
        show (Editor.page (@Editor.contentChanged _ _ (page (.wired other q.origin) deal) _ _)).putSeat other
          (.idle { q with
            state := (@Editor.contentChanged _ _ (page (.wired other q.origin) deal) _ _).state
            names := (@Editor.contentChanged _ _ (page (.wired other q.origin) deal) _ _).names }) = _
        rw [he]
      rw [entered]
      refine ⟨said.window.trans h.window, said.reactions.trans h.reactions, ⟨r', ?_, hconfig, ?_⟩⟩
      · rw [seat?_putSeat, if_neg hid, seat?_of_editors said.editors, seat?_putSeat, if_neg hid, hseat]
      · exact phase.rebase said.document said.listeners
  · exact h

/-- A cycle goes on while editors are told of changes. -/
theorem Cycle.tellObservers (h : b.Cycle id r b') : b.Cycle id r b'.tellObservers := by
  unfold Browser.tellObservers
  split
  · refine List.foldlRecOn (motive := b.Cycle id r) _ _ ?_ fun _ h other _ => h.enterIfIdle other
    obtain ⟨r', hseat, hconfig, phase⟩ := h.phase
    refine ⟨h.window, h.reactions, ⟨r', hseat, hconfig, ?_⟩⟩
    obtain ⟨sheets, stage, hs⟩ := phase.stage
    have doc := stage.document
    have unnoted : b.document.Dressed { b'.document with changed := false } sheets :=
      { rooted := doc.rooted.of_nodes rfl, fresh := doc.fresh, content := doc.content, body := doc.body
        parent := doc.parent, children := doc.children, focused := doc.focused, head := doc.head
        isNew := doc.isNew, named := doc.named, texts := doc.texts }
    exact ⟨phase.free, phase.listening, ⟨sheets, ⟨⟨rfl, rfl, rfl, rfl, rfl, rfl⟩, unnoted, stage.listeners⟩, hs⟩,
      phase.body⟩
  · exact h

/-! ## Runs of messages -/

/-- A message that asks for no more than a mode leads from phase to phase. -/
theorem Phase.receive (h : b.Phase d ls n e) (hb : Bare d ls n e.config) {content : Json} {fromParent : Bool}
    (hc : ∀ c, (TrustPolicy.mk e.config.hostTag).accept content fromParent = .ok c → ∃ m, c = .setMode m)
    {origin : String} : letI := page (.wired n origin) deal
    b.Phase d ls n (e.receive content fromParent).1 := by
  let := page (.wired n origin) deal
  unfold Editor.receive
  split
  · rename_i c haccept
    obtain ⟨m, rfl⟩ := hc c haccept
    exact h.setMode hb m
  · split
    · exact h.undisturbed (undisturbed_log _ _)
    · exact h.undisturbed (undisturbed_log _ _)

/-- The editor listens to no messages in the course of a cycle that it did not listen to before. -/
theorem Cycle.mem_listenersAt (h : b.Cycle id r b') {capture : Bool} {l : Listener}
    (hl : l ∈ b'.listenersAt "message" ⟨.window, capture⟩) :
    l ∈ b.listeners ∧ l.place = .window ∧ l.type = "message" := by
  obtain ⟨r', -, -, phase⟩ := h.phase
  obtain ⟨sheets, stage, -⟩ := phase.stage
  have listeners : b'.listeners = _ := stage.listeners
  obtain ⟨hin, hat⟩ := List.mem_filter.1 hl
  simp only [Bool.and_eq_true, beq_iff_eq] at hat
  refine ⟨?_, hat.1.1, hat.2⟩
  rw [listeners] at hin
  rcases List.mem_append.1 hin with old | own
  · exact old
  · split at own
    · obtain ⟨ev, -, rfl⟩ := List.mem_map.1 own
      cases hat.1.1
    · cases own

/-- A message that asks for a mode goes on with the cycle. -/
theorem Cycle.receiveAs (deal : Dispatcher) (h : b.Cycle id r b') (hb : Bare b.document b.listeners id r.config)
    {m : Option Json × Option WindowRef} (hm : b.AsksForMode r.config m) :
    b.Cycle id r (b'.receiveAs deal id (messageEvent m.1 m.2)) := by
  unfold Browser.receiveAs
  split
  · rename_i content sender q hdata hq
    obtain ⟨hcontent, hsender⟩ := EventData.message.inj hdata
    refine h.enter hq fun p hconfig phase => ?_
    refine Phase.receive phase (hconfig ▸ hb) fun c haccept => ?_
    refine hm content hcontent c ?_
    rw [h.window, hconfig, ← hsender] at haccept
    exact haccept
  · rename_i hq
    obtain ⟨r', hseat, -, -⟩ := h.phase
    rw [hseat] at hq
    cases hq
  · exact h

/-- What else is kept apart from the document, the listeners and the seats is of no account. -/
theorem Cycle.aside (h : b.Cycle id r b') (cs : List Callback) (rs : List Reacted) :
    b.Cycle id r { b' with running := cs, reacted := rs } := by
  obtain ⟨r', hseat, hconfig, phase⟩ := h.phase
  exact ⟨h.window, h.reactions, ⟨r', hseat, hconfig, phase.rebase rfl rfl⟩⟩

theorem Cycle.perform (deal : Dispatcher) (h : b.Cycle id r b') (hb : Bare b.document b.listeners id r.config)
    {m : Option Json × Option WindowRef} (hm : b.AsksForMode r.config m) {l : Listener} (hl : b.Hears id l) :
    b.Cycle id r (b'.perform deal l.callback l.place (messageEvent m.1 m.2)).1 := by
  -- what listens is the editor itself, or a hook whose reaction is quiet
  rcases hl with hl | ⟨k, hl, quiet⟩
  · rw [hl]
    exact h.receiveAs deal hb hm
  · rw [hl]
    unfold Browser.perform
    dsimp only
    split
    · rename_i reaction hk
      rw [h.reactions] at hk
      cases reaction with
      | fire e => exact absurd hk (quiet e)
      | notify =>
        have told : b.Cycle id r (b'.notify deal) := by
          unfold Browser.notify
          split
          · exact h.enterIfIdle _
          · exact h
        exact told.aside _ _
      | probe => exact h.aside _ _
    · exact h

/-- A listener that hears the message goes on with the cycle. -/
theorem Cycle.callListener (deal : Dispatcher) (hb : Bare b.document b.listeners id r.config)
    {m : Option Json × Option WindowRef} (hm : b.AsksForMode r.config m) {l : Listener} (hl : b.Hears id l)
    {now : Browser × Response} (h : b.Cycle id r now.1) :
    b.Cycle id r (Browser.callListener deal (messageEvent m.1 m.2) now l).1 := by
  unfold Browser.callListener
  split
  · show b.Cycle id r (now.1.call deal l.callback l.place (messageEvent m.1 m.2)).1
    unfold Browser.call
    split
    · exact h
    · exact ((h.aside (l.callback :: now.1.running) now.1.reacted).perform deal hb hm hl).aside _ _
  · exact h

/-- A stop on the way of the message goes on with the cycle. -/
theorem Cycle.makeStop (deal : Dispatcher) (hb : Bare b.document b.listeners id r.config) (hr : b.Rests id r)
    {m : Option Json × Option WindowRef} (hm : b.AsksForMode r.config m) (capture : Bool)
    {now : Browser × Response} (h : b.Cycle id r now.1) :
    b.Cycle id r (Browser.makeStop deal (messageEvent m.1 m.2) now ⟨.window, capture⟩).1 := by
  unfold Browser.makeStop
  split
  · exact h
  · refine List.foldlRecOn (motive := fun now : Browser × Response => b.Cycle id r now.1) _ _ h fun _ so l hl => ?_
    obtain ⟨old, hplace, htype⟩ := h.mem_listenersAt hl
    exact so.callListener deal hb hm (hr.heard l old hplace htype)

/-- A message that asks for a mode leads from phase to phase. -/
theorem Cycle.hear (h : b.Cycle id r b') (hr : b.Rests id r) (hb : Bare b.document b.listeners id r.config)
    {m : Option Json × Option WindowRef} (hm : b.AsksForMode r.config m) : b.Cycle id r (b'.hear m) := by
  refine Cycle.tellObservers ?_
  show b.Cycle id r (dispatch (b'.reactions.length + 4 * b'.editors.length + 1) b' (messageEvent m.1 m.2)).1
  unfold dispatch
  rw [itinerary_window b'.document _ rfl]
  exact Cycle.makeStop _ hb hr hm false (Cycle.makeStop _ hb hr hm true h)

theorem Cycle.hearAll (h : b.Cycle id r b') (hr : b.Rests id r)
    (hb : Bare b.document b.listeners id r.config) {ms : List (Option Json × Option WindowRef)}
    (hms : ∀ m ∈ ms, b.AsksForMode r.config m) : b.Cycle id r (b'.hearAll ms) :=
  List.foldlRecOn (motive := b.Cycle id r) _ _ h fun _ h m hm => h.hear hr hb (hms m hm)

/-! ## An editor that has just been started -/

/-- What the page is when an editor has begun to work in it. -/
structure Begun (b : Browser) (r : Resident) (b' : Browser) : Prop where
  editors : ∃ s names, b'.editors = [(b.started, .idle { r with state := s, names := names })] ∧ s.mode = .disabled ∧
    s.HoldsNothing ∧ s.listening = false
  document : b'.document = b.document
  reactions : b'.reactions = b.reactions
  handle : b'.handle = none
  listeners : ∃ ls, b'.listeners = b.listeners ++ messageListener b.started :: ls ∧ ls ⊆ [loadListener b.started]

/-- A new editor has begun nothing. -/
theorem begun_addEditor (hb : b.Unattended) {r : Resident} (hr : r.state = {}) :
    b.Begun r (b.addEditor r) := by
  have new : messageListener b.started ∉ b.listeners := fun hl => by
    obtain ⟨k, hk⟩ := hb.listeners _ hl
    cases hk
  unfold addEditor listen
  rw [if_neg new]
  refine ⟨⟨{}, r.names, ?_, rfl, ⟨rfl, rfl, rfl⟩, rfl⟩, rfl, rfl, hb.handle, [], rfl, List.nil_subset _⟩
  show b.editors ++ _ = _
  rw [hb.editors, ← hr]
  rfl

theorem Begun.begin {r : Resident} (h : b.Begun r b') (hb : b.Unattended)
    (hnew : b'.listeners = b.listeners ++ [messageListener b.started]) :
    b.Begun r (b'.begin b.started) := by
  obtain ⟨s, names, hs, hmode, hfree, hlisten⟩ := h.editors
  unfold Browser.begin
  split
  · have new : loadListener b.started ∉ b'.listeners := fun hl => by
      rw [hnew] at hl
      rcases List.mem_append.1 hl with hl | hl
      · obtain ⟨k, hk⟩ := hb.listeners _ hl
        cases hk
      · cases List.mem_singleton.1 hl
    unfold listen
    rw [if_neg new]
    refine ⟨⟨s, names, hs, hmode, hfree, hlisten⟩, h.document, h.reactions, h.handle, [loadListener b.started], ?_,
      List.Subset.refl _⟩
    show b'.listeners ++ _ = _
    rw [hnew, List.append_assoc]
    rfl
  · have seat : b'.seat? b.started = some (.idle { r with state := s, names := names }) := by
      unfold seat?
      rw [hs]
      simp
    unfold enterIfIdle
    rw [seat]
    dsimp only
    rw [enter_fst]
    obtain ⟨p, names', hover, ready, he, said, lost⟩ := contentChanged_eq (.wired b.started r.origin) fire
      ⟨b'.putSeat b.started .working, r.config, s, names⟩
    rw [show (Act.contentChanged _ _).1 = _ from he]
    refine ⟨⟨{ s with hover := hover, ready := ready }, names', ?_, hmode,
        ⟨hfree.selection, lost hfree.hover, hfree.session⟩, hlisten⟩,
      said.document.trans h.document, said.reactions.trans h.reactions, said.handle.trans h.handle, [], ?_,
      List.nil_subset _⟩
    · show p.editors.map _ = _
      rw [said.editors]
      show (b'.editors.map _).map _ = _
      rw [hs]
      simp
    · exact said.listeners.trans hnew

/-- A start that does not fail begins with a new editor, and ends the earlier one. -/
theorem of_start {o : StartOptions} (hs : b.start o = .ok b') : b.startFault? = none ∧
    b' = { ((b.addEditor { config := o.editor, origin := o.targetOrigin.getD "*" }).begin b.started).endHandle with
      handle := some b.started } := by
  unfold Browser.start at hs
  split at hs
  · cases hs
  · rename_i sound
    cases hs
    exact ⟨sound, rfl⟩

theorem endHandle_of_none (h : b.handle = none) : b.endHandle = b := by
  unfold endHandle
  rw [h]

/-- An editor that has just been started has changed nothing but what is listened to. -/
theorem begun_start {o : StartOptions} (hb : b.Unattended) (hs : b.start o = .ok b') :
    ∃ p, b.Begun { config := o.editor, origin := o.targetOrigin.getD "*" } p ∧
      b' = { p with handle := some b.started } := by
  let r : Resident := { config := o.editor, origin := o.targetOrigin.getD "*" }
  have added : b.Begun r (b.addEditor r) := begun_addEditor hb rfl
  have begun : b.Begun r ((b.addEditor r).begin b.started) := by
    refine added.begin hb ?_
    unfold addEditor listen
    split
    · rename_i hl
      obtain ⟨k, hk⟩ := hb.listeners _ hl
      cases hk
    · rfl
  refine ⟨_, begun, (of_start hs).2.trans ?_⟩
  rw [endHandle_of_none begun.handle]

/-- An editor that has just been started is disabled and has nothing to do. -/
theorem rests_start {o : StartOptions} (hb : b.Unattended) (hs : b.start o = .ok b')
    (hquiet : ∀ l ∈ b.listeners, l.place = .window → l.type = "message" → b.Hears b.started l) :
    ∃ r, b'.Rests b.started r ∧ r.config = o.editor ∧ b'.document = b.document ∧
      ∀ l ∈ b'.listeners, l.callback ≠ .documentEvents b.started := by
  obtain ⟨p, begun, rfl⟩ := begun_start hb hs
  obtain ⟨s, names, hs, hmode, hfree, hlisten⟩ := begun.editors
  obtain ⟨ls, hls, hload⟩ := begun.listeners
  have listed : ∀ l ∈ p.listeners, l ∈ b.listeners ∨ l = messageListener b.started ∨ l = loadListener b.started := by
    intro l hl
    rw [hls] at hl
    rcases List.mem_append.1 hl with old | new
    · exact .inl old
    · exact .inr ((List.mem_cons.1 new).imp_right fun hl => List.mem_singleton.1 (hload hl))
  refine ⟨{ config := o.editor, origin := o.targetOrigin.getD "*", state := s, names := names },
    ⟨?_, hmode, hfree, hlisten, fun l hl hplace htype => ?_⟩, rfl, begun.document, fun l hl => ?_⟩
  · show (p.editors.find? _).map Prod.snd = _
    rw [hs]
    simp
  · rcases listed l hl with old | rfl | rfl
    · refine (hquiet l old hplace htype).imp_right fun ⟨k, hk, quiet⟩ => ⟨k, hk, fun e => ?_⟩
      rw [show Browser.reactions _ = _ from begun.reactions]
      exact quiet e
    · exact .inl rfl
    · cases hplace
  · rcases listed l hl with old | rfl | rfl
    · obtain ⟨k, hk⟩ := hb.listeners l old
      rw [hk]
      nofun
    · nofun
    · nofun

/-- An undressed document is as it was. -/
theorem Document.Dressed.neutral {d d' : Document} (h : d.Dressed d' []) (hd : d.Rooted)
    (hbody : ∀ n e, d.body? = some n → d.element? n = some e →
      ∃ e', d'.element? n = some e' ∧ (e' = e ∨ e.Uncursored e')) : d.Neutral d' where
  content := h.content
  body := hbody
  parent := h.parent
  children n hn := by
    rw [h.children n hn]
    split <;> exact List.append_nil _
  inside n hn := by
    rcases h.mem_preorderWithin hd hd.top_lt_fresh hn with ⟨-, found⟩ | new | ⟨s, hs, -⟩
    · exact hd.mem_preorder found
    · cases new
    · cases hs
  focused := h.focused

end

/-- What comes of a start can be looked at. -/
theorem exists_start {P : Browser → Prop} [DecidablePred P] {b : Browser} {o : StartOptions}
    (h : (b.start o).toOption.any (fun b' => P b') = true) : ∃ b', b.start o = .ok b' ∧ P b' := by
  cases hs : b.start o with
  | error fault =>
    rw [hs] at h
    cases h
  | ok b' =>
    rw [hs] at h
    exact ⟨b', rfl, of_decide_eq_true h⟩

/-- The host may ask for a mode by its messages. -/
theorem asksForMode_modeRequest (b : Browser) {config : EditorConfig} (h : config.hostTag = hostTag) (m : EditMode) :
    b.AsksForMode config (modeRequest m) := by
  rintro _ ⟨⟩ c hc
  rw [h] at hc
  have accepted : ∀ fromParent, (TrustPolicy.mk hostTag).accept (Json.transferred (Envelope.toJson
      ⟨(Command.setMode m).kind, .ofFields [("state", .str m.text)], some hostTag⟩)) fromParent = .ok c →
      c = .setMode m := by
    intro fromParent hc
    cases fromParent with
    | true => cases m <;> cases hc <;> rfl
    | false => cases m <;> cases hc
  exact ⟨m, accepted _ hc⟩

end InPlace.Browser

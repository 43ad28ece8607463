import InPlace.Proofs.Browser.Happenings
import InPlace.Proofs.Browser.Neutrality
import InPlace.Proofs.Browser.PutBack
import Mathlib.Tactic.IntervalCases

/-!
# Editors that leave a page

While an editor is in a page, events arrive, messages are sent and the page changes its document. Whatever of this
happens, the page is tidy between two reactions, and so an editor that is ended leaves nothing behind: neither a listener
nor a mark nor a style sheet, and no text or style that it has put in place of another. Afterwards nobody reacts any more.

That no mark is left depends on the page. It may write a mark itself, and a body that it takes out of the document while
that is marked as being saved, and puts back later, comes back with the mark. Each mark depends only on what the page does
with that attribute, and this one also on what becomes of the body.

Main statements: `Kept.goOn`, `endHandle_leaves` and `goOn_of_no_editors`.
-/

namespace InPlace.Browser

open Document

/-- Nothing that may be left to an editor has been used in a document. -/
def Document.Unmarked (d : Document) : Matter → Prop
  | .mark name => ∀ n, d.attribute? n name = none
  | .sheets => ∀ id ∈ ownIds, d.byId? id = none
  | .places => True

/-- A document without what an editor puts into it, on the terms of `C`. -/
structure Document.Bare (C : Matter → Prop) (d : Document) : Prop where
  selected : C (.mark Overlay.selectedAttribute) → d.Unmarked (.mark Overlay.selectedAttribute)
  edited : C (.mark Overlay.editingAttribute) → d.Unmarked (.mark Overlay.editingAttribute)
  saving : C (.mark Overlay.savingAttribute) → Placed C → d.Unmarked (.mark Overlay.savingAttribute)
  sheets : C .sheets → d.Unmarked .sheets

/-- The page has one editor, which is idle and leaves it tidy. -/
structure Kept (C : Matter → Prop) (id : Nat) (handle : Option Nat) (b : Browser) : Prop where
  handle : b.handle = handle
  observers : b.observers = [id]
  hasDocument : b.window.hasDocument = true
  tidy : ∃ r, b.editors = [(id, .idle r)] ∧ Tidy C id b r.state.holding

/-- Nothing is left in the page of an editor that held what its state says. -/
structure Departed (s : EditorState NodeId) (b b' : Browser) : Prop where
  editors : b'.editors = []
  observers : b'.observers = []
  handle : b'.handle = none
  /-- What is still registered is the page's own. -/
  listeners : ∀ l, l ∈ b'.listeners ↔ l ∈ b.listeners ∧ ∃ k, l.callback = .hook k
  text : ∀ x, s.session = some x → b'.document.textContent x.element = x.openingText
  style : ∀ x, s.selection = some x → b'.document.attribute? x.element "style" = x.unmarkedStyle

section

variable {C : Matter → Prop} {id : Nat} {b b' : Browser} {handle : Option Nat} {deal : Dispatcher}
  {e : Editor Browser NodeId}
  {h : Holding} {origin : String}

/-! ## Between two reactions -/

/-- What is kept stays so meanwhile. -/
theorem Kept.meanwhile (k : Kept C id handle b) (h : Meanwhile C b b') : Kept C id handle b' where
  handle := h.seats.handle.trans k.handle
  observers := h.seats.observers.trans k.observers
  hasDocument := by
    rw [h.seats.window]
    exact k.hasDocument
  tidy := by
    obtain ⟨r, hr, t⟩ := k.tidy
    exact ⟨r, h.seats.editors.trans hr, t.meanwhile h⟩

/-- What the editor has a reason for at any time may be registered, and what the page does. -/
theorem Kept.listen (k : Kept C id handle b) {l : Listener} (hl : ∀ h, Expected id h l) :
    Kept C id handle (b.listen l) := by
  obtain ⟨r, hr, t⟩ := k.tidy
  have heard := t.listen (hl _)
  unfold Browser.listen at heard ⊢
  split
  · exact k
  · rename_i hnew
    rw [if_neg hnew] at heard
    exact ⟨k.handle, k.observers, k.hasDocument, ⟨r, hr, heard⟩⟩

/-- What the editor does on its own leaves the page tidy. -/
theorem Sound.reacts {p : Browser} (s : Sound C id p h e) (hd : Calm deal) (hp : p.Busy) (origin : String) {α : Type}
    {act : Act α} (ha : Reacts act) : ∃ h, Sound C id p h (act (page (.wired id origin) deal) e).1 := by
  cases ha with
  | handle event => exact sound_handleEvent s event hd hp
  | receive content fromParent => exact sound_receive s content fromParent
  | contentChanged => exact ⟨h, s.aside (aside_contentChanged e)⟩

/-- The only editor, at work. -/
theorem Tidy.working {r : Resident} (t : Tidy C id b r.state.holding) (hr : b.editors = [(id, .idle r)]) :
    (b.putSeat id .working).editors = [(id, .working)] ∧ (b.putSeat id .working).Busy ∧
      Sound C id (b.putSeat id .working) r.state.holding ⟨b.putSeat id .working, r.config, r.state, r.names⟩ := by
  have working : (b.putSeat id .working).editors = [(id, .working)] := by
    show b.editors.map _ = _
    rw [hr]
    simp
  refine ⟨working, fun other q hq => ?_, ⟨.refl _, { t with }, rfl⟩⟩
  unfold seat? at hq
  rw [working] at hq
  by_cases ho : id = other
  · simp [ho] at hq
  · simp [ho] at hq

/-- What an editor does on its own keeps what is kept, if it stays sound. -/
theorem Kept.enter {r : Resident} (k : Kept C id handle b) (hr : b.editors = [(id, .idle r)]) {α : Type} {act : Act α}
    (hact : ∀ (p : Browser) (h : Holding), p.Busy → Sound C id p h ⟨p, r.config, r.state, r.names⟩ →
      ∃ h, Sound C id p h (act (page (.wired id r.origin) deal) ⟨p, r.config, r.state, r.names⟩).1) :
    Kept C id handle (b.enter deal id r act).1 := by
  obtain ⟨r', hr', t⟩ := k.tidy
  obtain rfl : r = r' := by
    rw [hr] at hr'
    cases hr'
    rfl
  obtain ⟨working, busy, begun⟩ := t.working hr
  -- the seat says that the editor is at work, so nothing that the act sets off enters it
  obtain ⟨h, done⟩ := hact _ _ busy begun
  rw [enter_fst]
  generalize (act (page (.wired id r.origin) deal) ⟨b.putSeat id .working, r.config, r.state, r.names⟩).1 = e at done
  refine ⟨done.seats.handle.trans k.handle, done.seats.observers.trans k.observers, ?_,
    ⟨{ r with state := e.state, names := e.names }, ?_, ?_⟩⟩
  · show e.page.window.hasDocument = true
    rw [done.seats.window]
    exact k.hasDocument
  · show e.page.editors.map _ = _
    rw [done.seats.editors, working]
    simp
  · have t := done.tidy
    rw [← done.holding] at t
    exact { t with }

/-- So an event that arrives leaves the page tidy, and everything that it raises. -/
theorem lasting_kept (C : Matter → Prop) (id : Nat) (handle : Option Nat) : Lasting (Kept C id handle) Calm where
  running b cs k := k.meanwhile ⟨⟨rfl, rfl, rfl, rfl, fun _ _ _ => .rfl⟩, fun _ hl => hl, .refl _⟩
  reacted b rs k := k.meanwhile ⟨⟨rfl, rfl, rfl, rfl, fun _ _ _ => .rfl⟩, fun _ hl => hl, .refl _⟩
  log b entry k := k.meanwhile (.of_undisturbed (undisturbed_log b entry))
  enter deal hd b other r k hr α act ha := by
    obtain ⟨r', hr', -⟩ := k.tidy
    have only : other = id ∧ r = r' := by
      unfold seat? at hr
      rw [hr'] at hr
      by_cases ho : id = other
      · simp [ho] at hr
        exact ⟨ho.symm, hr.symm⟩
      · simp [ho] at hr
    obtain ⟨rfl, rfl⟩ := only
    exact k.enter hr' fun p h hp s => s.reacts hd hp r.origin ha

/-- Whatever happens, the page is tidy afterwards, as far as it leaves to the editor what it is to leave. -/
theorem Kept.happen (k : Kept C id handle b) (h : Happening)
    (hm : ∀ x, C x → ∀ m, h = .mutation m → b.document.Spares (m.apply b.document) x) : Kept C id handle (b.happen h) := by
  have lasting := lasting_kept C id handle
  cases h with
  | event e => exact lasting.fire k e
  | focus n =>
    have entered : ∀ left, Kept C id handle left → Kept C id handle
        ((left.onDocument fun d => { d with focused := some n }).fire ⟨"focus", .node n, .plain⟩).1 :=
      fun left k => lasting.fire (k.meanwhile (.onDocument (addsNothing_of_nodes rfl))) _
    unfold Browser.happen
    dsimp only
    split
    · unfold moveFocus
      split
      · exact k
      · cases b.document.focused with
        | none => exact entered b k
        | some old => exact entered _ (lasting.fire k _)
    · exact k
  | hook place type capture r =>
    have noted : Kept C id handle { b with reactions := b.reactions ++ [r] } :=
      k.meanwhile ⟨⟨rfl, rfl, rfl, rfl, fun _ _ _ => .rfl⟩, fun _ hl => hl, .refl _⟩
    exact noted.listen fun h => .hook _ rfl
  | notify => exact lasting.notify calm_fire k
  | mutation m =>
    obtain ⟨r, -, t⟩ := k.tidy
    exact k.meanwhile (.onDocument (m.addsNothing t.rooted fun x c => hm x c m rfl))
  | resize width =>
    obtain ⟨r, hr, t⟩ := k.tidy
    exact ⟨k.handle, k.observers, k.hasDocument, ⟨r, hr, { t with }⟩⟩

theorem Kept.goOn (k : Kept C id handle b) (h : Happening)
    (hm : ∀ x, C x → ∀ m, h = .mutation m → b.document.Spares (m.apply b.document) x) : Kept C id handle (b.goOn h) :=
  (lasting_kept C id handle).tellObservers (fun _ k => k.meanwhile (.onDocument (addsNothing_of_nodes rfl)))
    (k.happen h hm)

theorem Kept.goOnAll (k : Kept C id handle b) {hs : List Happening} (hm : ∀ x, C x → b.Reserved x hs) :
    Kept C id handle (b.goOnAll hs) := by
  induction hs generalizing b with
  | nil => exact k
  | cons h hs ih => exact ih (k.goOn h fun x c => (hm x c).1) fun x c => (hm x c).2

/-! ## Coming -/

/-- An editor that has just been started has put nothing into the page but its listener for messages. -/
theorem kept_addEditor (hb : b.Unattended) (r : Resident) (hr : r.state = {}) (hw : b.window.hasDocument = true)
    (hC : ∀ x, C x → b.document.Unmarked x) : Kept C b.started none (b.addEditor r) := by
  have absent (name : String) (c : C (.mark name)) (n : NodeId) : ¬ b.document.attribute? n name ≠ none :=
    not_not.2 (hC (.mark name) c n)
  have alone : Kept C b.started none { b with
      editors := b.editors ++ [(b.started, .idle r)]
      started := b.started + 1
      observers := b.observers ++ [b.started] } := by
    refine ⟨hb.handle, ?_, hw, r, ?_, ?_⟩
    · show b.observers ++ _ = _
      rw [hb.observers]
      rfl
    · show b.editors ++ _ = _
      rw [hb.editors]
      rfl
    · rw [hr]
      exact
        { rooted := hb.rooted
          listeners := fun l hl => (hb.listeners l hl).elim fun k hk => .hook k hk
          selected := fun _ hn => nomatch hn
          edited := fun _ hn => nomatch hn
          selectedMark := fun c n hn => absurd hn (absent _ c n)
          editedMark := fun c n hn => absurd hn (absent _ c n)
          savingMark := fun c _ n hn => absurd hn (absent _ c n)
          sheets := fun c sheet hs n hn => absurd hn (byId?_eq_none_iff.1 (hC .sheets c.sheets sheet hs) n)
          free := fun _ => ⟨rfl, rfl, rfl⟩
          bare := fun c _ => hC .sheets c
          unsaved := fun c _ _ => hC (.mark _) c }
  exact alone.listen fun h => .messages

/-- An editor that starts keeps the page as it is. -/
theorem kept_start {o : StartOptions} (hb : b.Unattended) (hs : b.start o = .ok b')
    (hC : ∀ x, C x → b.document.Unmarked x) :
    Kept C b.started (some b.started) b' := by
  obtain ⟨sound, rfl⟩ := of_start hs
  have hw : b.window.hasDocument = true := by
    unfold startFault? at sound
    split at sound
    · cases sound
    · split at sound
      · cases sound
      · rename_i h
        simpa using h
  let r : Resident := { config := o.editor, origin := o.targetOrigin.getD "*" }
  have added : Kept C b.started none (b.addEditor r) := kept_addEditor hb r rfl hw hC
  have begun : Kept C b.started none ((b.addEditor r).begin b.started) := by
    unfold Browser.begin
    split
    · exact added.listen fun h => .loading
    · exact (lasting_kept C b.started none).enterIfIdle calm_fire added b.started
  obtain ⟨s, seats, t⟩ := begun.tidy
  rw [endHandle_of_none begun.handle]
  exact ⟨rfl, begun.observers, begun.hasDocument, ⟨s, seats, { t with }⟩⟩

/-! ## Leaving -/

/-- A page is bare that is tidy and whose editor is disabled. -/
theorem Tidy.document_bare (t : Tidy C id b h) (hm : h.mode = .disabled) : b.document.Bare C := by
  obtain ⟨selected, edited, -⟩ := t.free hm
  refine ⟨fun c n => ?_, fun c n => ?_, fun c c' => t.unsaved c c' hm, fun c => t.bare c hm⟩
  · by_contra some
    have held := t.selectedMark c n some
    rw [selected] at held
    cases held
  · by_contra some
    have held := t.editedMark c n some
    rw [edited] at held
    cases held

/-- What an editor leaves when it is told to leave its mode. -/
structure Left (C : Matter → Prop) (id : Nat) (b : Browser) (e e' : Editor Browser NodeId) : Prop where
  sound : Sound C id b ⟨.disabled, none, none, false⟩ e'
  listeners : ∀ l ∈ e'.page.listeners, l ∈ e.page.listeners
  text : ∀ x, e.state.session = some x → e'.page.document.textContent x.element = x.openingText
  style : ∀ x, e.state.selection = some x → e'.page.document.attribute? x.element "style" = x.unmarkedStyle

theorem Left.log (h : Left C id b e e') (level : LogLevel) (message : String) (fields : List (String × String)) :
    letI := page (.wired id origin) deal
    Left C id b e (e'.log level message fields) := by
  let := page (.wired id origin) deal
  have said : e'.page.Undisturbed (e'.log level message fields).page := undisturbed_log _ _
  refine ⟨h.sound.aside (aside_log _ _ _ _), fun l hl => h.listeners l (said.listeners ▸ hl), fun x hx => ?_,
    fun x hx => ?_⟩
  · rw [said.document]
    exact h.text x hx
  · rw [said.document]
    exact h.style x hx

/-- An editor that is disabled has nothing to let go of. -/
theorem Sound.left_of_disabled (s : Sound C id b h e) (hm : e.state.mode = .disabled) : Left C id b e e := by
  have t := s.tidy
  rw [← s.holding] at t
  obtain ⟨selected, edited, listening⟩ := t.free hm
  have holding : h = ⟨.disabled, none, none, false⟩ := by
    rw [← s.holding]
    show (⟨e.state.mode, e.state.holding.selected, e.state.holding.edited, e.state.holding.listening⟩ : Holding) = _
    rw [hm, selected, edited, listening]
  refine ⟨holding ▸ s, fun _ hl => hl, fun x hx => ?_, fun x hx => ?_⟩
  · have none : e.state.session.map Session.element = none := edited
    rw [hx] at none
    cases none
  · have none : e.state.selection.map Selection.element = none := selected
    rw [hx] at none
    cases none

/-- Leaving edit mode leaves nothing behind. -/
theorem Sound.left_disable (s : Sound C id b h e) (origin : String) (deal : Dispatcher) :
    letI := page (.wired id origin) deal
    Left C id b e e.disable := by
  let := page (.wired id origin) deal
  obtain ⟨p, he, -, document, listeners⟩ := disable_eq id origin deal e
  have t := s.tidy
  rw [← s.holding] at t
  have edited : ∀ x, e.state.session = some x → (e.page.document.element? x.element).isSome := fun x hx =>
    (t.edited _ (congrArg (Option.map Session.element) hx)).element
  have done : Sound C id b ⟨.disabled, none, none, false⟩ e.disable := s.disable
  rw [he] at done ⊢
  refine ⟨done, fun l hl => ?_, fun x hx => ?_, fun x hx => ?_⟩
  · rw [show _ = _ from listeners] at hl
    exact (List.mem_filter.1 hl).1
  · rw [show p.document = _ from document]
    exact textContent_undressed t.rooted hx (edited x hx)
  · rw [show p.document = _ from document]
    exact style_undressed t.rooted edited hx (t.selected _ (congrArg (Option.map Selection.element) hx)).element

/-- To be disabled leaves nothing behind, from whatever mode. -/
theorem Sound.setDisabled (s : Sound C id b h e) (origin : String) (deal : Dispatcher) :
    letI := page (.wired id origin) deal
    Left C id b e (e.setMode .disabled).1 := by
  let := page (.wired id origin) deal
  unfold Editor.setMode
  dsimp only
  by_cases hm : e.state.mode = .disabled
  · rw [if_pos hm]
    exact (s.left_of_disabled hm).log _ _ _
  · have left : Left C id b e e.disable := s.left_disable origin deal
    rw [if_neg hm]
    cases hmode : e.state.mode with
    | disabled => exact absurd hmode hm
    | enabled => exact left.log _ _ _
    | saving => exact left.log _ _ _

/-- An editor that is idle ends in three steps: it gives up two listeners, leaves its mode, and is gone. -/
theorem endEditor_eq {r : Resident} (hw : b.window.hasDocument = true) (hr : b.seat? id = some (.idle r)) :
    letI silent := (({ b with observers := b.observers.filter (· != id) } : Browser).unlisten (messageListener id)).unlisten
      (loadListener id)
    letI left := (silent.enter fire id r (.setMode .disabled)).1
    b.endEditor id = { left with editors := left.editors.filter fun e => e.1 != id } := by
  unfold endEditor
  extract_lets deaf silent left
  have hsilent : silent = deaf.unlisten (loadListener id) := if_pos hw
  have hleft : left = (silent.enter fire id r (.setMode .disabled)).1 := by
    have seat : silent.seat? id = some (.idle r) := by
      rw [hsilent]
      exact hr
    unfold left
    rw [seat]
  rw [hleft, hsilent]

/-- An editor that is ended leaves nothing behind. -/
theorem Kept.endHandle (k : Kept C id (some id) b) : ∃ r, b.editors = [(id, .idle r)] ∧
    Departed r.state b b.endHandle ∧ b.endHandle.document.Bare C := by
  obtain ⟨r, hr, t⟩ := k.tidy
  let q := (({ b with handle := none, observers := b.observers.filter (· != id) } : Browser).unlisten
    (messageListener id)).unlisten (loadListener id)
  have heard : ∀ l, l ∈ q.listeners ↔ l ≠ loadListener id ∧ l ≠ messageListener id ∧ l ∈ b.listeners := fun l => by
    rw [mem_listeners_unlisten, mem_listeners_unlisten]
  have tidy : Tidy C id q r.state.holding := { t with listeners := fun l hl => t.listeners l ((heard l).1 hl).2.2 }
  obtain ⟨working, -, begun⟩ := tidy.working hr
  have left : Left C id (q.putSeat id .working) ⟨q.putSeat id .working, r.config, r.state, r.names⟩
      (Act.setMode .disabled (page (.wired id r.origin) fire) ⟨q.putSeat id .working, r.config, r.state, r.names⟩).1 :=
    begun.setDisabled r.origin fire
  have ended : b.endHandle = { (q.enter fire id r (.setMode .disabled)).1 with
      editors := (q.enter fire id r (.setMode .disabled)).1.editors.filter fun e => e.1 != id } := by
    have seat : ({ b with handle := none } : Browser).seat? id = some (.idle r) := by
      show (b.editors.find? _).map Prod.snd = _
      rw [hr]
      simp
    unfold Browser.endHandle
    rw [k.handle]
    exact endEditor_eq k.hasDocument seat
  rw [enter_fst] at ended
  generalize (Act.setMode .disabled (page (.wired id r.origin) fire)
    ⟨q.putSeat id .working, r.config, r.state, r.names⟩).1 = e at ended left
  have t := left.sound.tidy
  have seats := left.sound.seats
  rw [ended]
  refine ⟨r, hr, ⟨?_, seats.observers.trans ?_, seats.handle, fun l => ⟨fun hl => ?_, fun hl => ?_⟩, left.text, left.style⟩,
    t.document_bare rfl⟩
  · show (e.page.editors.map _).filter _ = []
    rw [seats.editors, working]
    simp
  · show b.observers.filter _ = []
    rw [k.observers]
    simp
  · obtain ⟨notLoading, notMessages, before⟩ := (heard l).1 (left.listeners l hl)
    refine ⟨before, ?_⟩
    cases t.listeners l hl with
    | hook k hk => exact ⟨k, hk⟩
    | messages => exact absurd rfl notMessages
    | loading => exact absurd rfl notLoading
    | document hh _ => cases hh
    | element hn _ => cases hn
  · obtain ⟨before, k, hk⟩ := hl
    refine (seats.own l k hk).2 ((heard l).2 ⟨?_, ?_, before⟩)
    · rintro rfl
      cases hk
    · rintro rfl
      cases hk

/-! ## Afterwards -/

/-- Something that the page does to its document on its own. -/
def Happening.own (h : Happening) (d : Document) : Document :=
  match h with
  | .mutation m => m.apply d
  | .focus n => if (d.element? n).isSome && d.isConnected n then { d with focused := some n } else d
  | _ => d

/-- A page without editors stays without them, sends nothing, and its document becomes `d`. -/
structure Quiet (b b' : Browser) (d : Document) : Prop where
  editors : b'.editors = []
  posted : b'.posted = b.posted
  document : b'.document = d

theorem busy_of_no_editors (hb : b.editors = []) : b.Busy := by
  intro id r hr
  unfold seat? at hr
  rw [hb] at hr
  cases hr

theorem fire_of_no_editors (hb : b.editors = []) (e : Event) : b.Quiet (b.fire e).1 b.document := by
  obtain ⟨still, posted⟩ := calm_fire b e (busy_of_no_editors hb)
  exact ⟨still.editors.trans hb, posted, still.document⟩

theorem enterIfIdle_of_no_editors (hb : b.editors = []) (id : Nat) : b.enterIfIdle fire id .contentChanged = b := by
  unfold enterIfIdle
  split
  · rename_i r hr
    exact absurd hr (busy_of_no_editors hb id r)
  · rfl

/-- Without editors nobody is told of a change. -/
theorem tellObservers_of_no_editors (hb : b.editors = []) :
    b.tellObservers = b.onDocument fun d => { d with changed := false } := by
  have unheard : ∀ (ids : List Nat) (b : Browser), b.editors = [] →
      ids.foldl (fun b id => b.enterIfIdle fire id .contentChanged) b = b := by
    intro ids
    induction ids with
    | nil => exact fun _ _ => rfl
    | cons id ids ih =>
      intro b hb
      rw [List.foldl_cons, enterIfIdle_of_no_editors hb id]
      exact ih b hb
  unfold tellObservers
  split
  · exact unheard _ _ hb
  · rename_i hc
    unfold onDocument
    rw [← Bool.eq_false_iff.2 hc]

/-- Without editors only the focus moves. -/
theorem moveFocus_of_no_editors (hb : b.editors = []) (n : NodeId) : b.Quiet (b.moveFocus fire n)
    (if b.document.isConnected n then { b.document with focused := some n } else b.document) := by
  have entered : ∀ left, b.Quiet left b.document →
      b.Quiet ((left.onDocument fun d => { d with focused := some n }).fire ⟨"focus", .node n, .plain⟩).1
        { b.document with focused := some n } := by
    intro left h
    have quiet := fire_of_no_editors (show (left.onDocument fun d => { d with focused := some n }).editors = []
      from h.editors) ⟨"focus", .node n, .plain⟩
    refine ⟨quiet.editors, quiet.posted.trans h.posted, quiet.document.trans ?_⟩
    exact congrArg (fun d : Document => { d with focused := some n }) h.document
  unfold moveFocus
  cases hc : b.document.isConnected n with
  | false => exact ⟨hb, rfl, rfl⟩
  | true =>
    by_cases hf : b.document.focused = some n
    · rw [if_pos (by simp [hf]), if_pos rfl, ← hf]
      exact ⟨hb, rfl, rfl⟩
    · rw [if_neg (by simpa using hf), if_pos rfl]
      cases b.document.focused with
      | none => exact entered b ⟨hb, rfl, rfl⟩
      | some old => exact entered _ (fire_of_no_editors hb _)

/-- Without editors nothing happens but what the page does. -/
theorem happen_of_no_editors (hb : b.editors = []) (h : Happening) : b.Quiet (b.happen h) (h.own b.document) := by
  -- without editors there is nobody who answers: each happening does what the page does by itself
  cases h with
  | event e => exact fire_of_no_editors hb e
  | focus n =>
    have moved := moveFocus_of_no_editors hb n
    unfold Browser.happen Happening.own
    dsimp only
    cases he : (b.document.element? n).isSome with
    | true => exact moved
    | false => exact ⟨hb, rfl, rfl⟩
  | hook place type capture r =>
    unfold Browser.happen listen
    dsimp only
    split <;> exact ⟨hb, rfl, rfl⟩
  | notify =>
    unfold Browser.happen notify
    dsimp only
    split
    · rw [enterIfIdle_of_no_editors hb]
      exact ⟨hb, rfl, rfl⟩
    · exact ⟨hb, rfl, rfl⟩
  | mutation m => exact ⟨hb, rfl, rfl⟩
  | resize width => exact ⟨hb, rfl, rfl⟩

/-- Where no editor is, nothing comes of what happens but what the page does itself. -/
theorem goOn_of_no_editors (hb : b.editors = []) (h : Happening) :
    b.Quiet (b.goOn h) { h.own b.document with changed := false } := by
  have happened := happen_of_no_editors hb h
  unfold Browser.goOn
  rw [tellObservers_of_no_editors happened.editors]
  exact ⟨happened.editors, happened.posted, congrArg (fun d : Document => { d with changed := false }) happened.document⟩

/-- Without editors the page goes on alone. -/
theorem goOnAll_of_no_editors (hb : b.editors = []) (hs : List Happening) :
    b.Quiet (b.goOnAll hs) (hs.foldl (fun d h => { h.own d with changed := false }) b.document) := by
  induction hs generalizing b with
  | nil => exact ⟨hb, rfl, rfl⟩
  | cons h hs ih =>
    have one := goOn_of_no_editors hb h
    have rest := ih one.editors
    rw [one.document] at rest
    exact ⟨rest.editors, rest.posted.trans one.posted, rest.document⟩

/-- From the start of an editor to its end, and on: it is idle when it is ended, and nothing of it is left. A mark is not,
if there was none before and the page leaves the mark to the editor. Whatever happens afterwards, nothing is sent, and the
document is changed by the page alone. -/
theorem endHandle_leaves {o : StartOptions} (hb : b.Unattended) (hs : b.start o = .ok b') (run later : List Happening) :
    letI before := b'.goOnAll run
    letI after := before.endHandle
    ∃ r, before.editors = [(b.started, .idle r)] ∧ Departed r.state before after ∧
      (after.document.Bare fun x => b.document.Unmarked x ∧ b'.Reserved x run) ∧
      (after.goOnAll later).posted = after.posted ∧
      (after.goOnAll later).document = later.foldl (fun d h => { h.own d with changed := false }) after.document := by
  have kept : Kept (fun x => b.document.Unmarked x ∧ b'.Reserved x run) b.started (some b.started) (b'.goOnAll run) :=
    (kept_start hb hs fun _ => And.left).goOnAll fun _ => And.right
  obtain ⟨r, hr, departed, bare⟩ := kept.endHandle
  have quiet := goOnAll_of_no_editors departed.editors later
  exact ⟨r, hr, departed, bare, quiet.posted, quiet.document⟩

end

/-- A new document bears no mark. -/
theorem unmarked_new (head body : Bool) (x : Matter) : (Document.new head body).Unmarked x := by
  cases x with
  | mark name =>
    intro n
    rcases Nat.lt_or_ge n 4 with hn | hn
    · interval_cases n <;> cases head <;> cases body <;> rfl
    · have nothing : (Document.new head body).nodes.content? n = none :=
        Forest.content?_eq_none_of_fresh_le (by cases head <;> cases body <;> exact hn)
      rw [attribute?, element?, nothing]
      rfl
  | places => trivial
  | sheets =>
    intro id hid
    rcases List.mem_cons.1 hid with rfl | hid
    · cases head <;> cases body <;> decide +kernel
    · rw [List.mem_singleton.1 hid]
      cases head <;> cases body <;> decide +kernel

/-- The host asks for a mode. -/
def asks (m : EditMode) : Happening :=
  .event (messageEvent (modeRequest m).1 (modeRequest m).2)

/-- A page that adds a text, and whose editor is ended in the saving mode. -/
theorem endHandle_leaves_new_page : ∃ b', ({} : Browser).start {} = .ok b' ∧
    letI run := [.mutation (.addText 3 "Hello"), asks .enabled, asks .saving]
    letI before := b'.goOnAll run
    letI after := before.endHandle
    before.document.attribute? 3 Overlay.savingAttribute = some "true" ∧ ({} : Browser).Unattended ∧
      (∀ x, ({} : Browser).document.Unmarked x ∧ b'.Reserved x run) ∧
      (∃ r : Resident, Departed r.state before after) ∧ after.document.Bare (fun _ => True) ∧
      (after.goOnAll [asks .enabled]).posted = after.posted := by
  let run := [.mutation (.addText 3 "Hello"), asks .enabled, asks .saving]
  have unattended : ({} : Browser).Unattended := ⟨rooted_new true true, rfl, rfl, rfl, fun _ hl => nomatch hl⟩
  obtain ⟨b', hs, marked⟩ : ∃ b', ({} : Browser).start {} = .ok b' ∧
      (b'.goOnAll run).document.attribute? 3 Overlay.savingAttribute = some "true" := exists_start (by decide +kernel)
  obtain ⟨-, -, -, document, -⟩ := rests_start unattended hs fun _ hl => nomatch hl
  have reserved (x : Matter) : b'.Reserved x run := by
    refine ⟨fun m hm => ?_, (fun m hm => nomatch hm), (fun m hm => nomatch hm), trivial⟩
    obtain rfl : .addText 3 "Hello" = m := Happening.mutation.inj hm
    have added : AddsNothing (fun _ => True) (Document.new true true)
        ((Document.new true true).pushUnder 3 (.text "Hello")) :=
      addsNothing_pushText _ (by decide) "Hello"
    have applied : Mutation.apply (.addText 3 "Hello") b'.document =
        (Document.new true true).pushUnder 3 (.text "Hello") := by
      rw [document]
      rfl
    rw [applied, document]
    have rooted := rooted_new true true
    cases x with
    | mark name =>
      intro n unmarked
      rw [attribute?, element?_pushText]
      exact unmarked
    | sheets => exact added.carries trivial rooted
    | places => exact ⟨added.root ⟨trivial, trivial⟩ rooted, added.body ⟨trivial, trivial⟩ rooted⟩
  have all (x : Matter) : ({} : Browser).document.Unmarked x ∧ b'.Reserved x run := ⟨unmarked_new true true x, reserved x⟩
  obtain ⟨r, -, departed, bare, posted, -⟩ := endHandle_leaves unattended hs run [asks .enabled]
  exact ⟨b', hs, marked, unattended, all, ⟨r, departed⟩, ⟨fun _ => bare.selected (all _), fun _ => bare.edited (all _),
    fun _ _ => bare.saving (all _) ⟨all _, all _⟩, fun _ => bare.sheets (all _)⟩, posted⟩

/-- The mark of the saving mode comes back with a body that the page took out while it was marked. -/
theorem saving_mark_comes_back : ∃ b', ({} : Browser).start {} = .ok b' ∧
    letI run := [asks .enabled, asks .saving, .mutation (.remove 3), asks .disabled, .mutation (.append 1 3)]
    ({} : Browser).document.attribute? 3 Overlay.savingAttribute = none ∧
      (b'.goOnAll run).endHandle.document.body? = some 3 ∧
      (b'.goOnAll run).endHandle.document.attribute? 3 Overlay.savingAttribute = some "true" :=
  exists_start (by decide +kernel)

end InPlace.Browser

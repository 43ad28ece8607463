import InPlace.Proofs.Browser.Asides

/-!
# Editors that leave the page tidy

What is not aside are a few operations that take hold of something or let go of it. For each of them it is said what the
editor holds afterwards (`Sound`). So every reaction leaves the page tidy, by whatever way the editor came to where it
is. An editor that is disabled lets go of everything at once; what the document is then is written down as a function of
what it held (`Document.undressed`).

Main statements: `Sound.disable`, `sound_setMode`, `sound_handleEvent` and `sound_receive`.
-/

namespace InPlace.Browser

open Document

/-- An editor at work in a page that came of `b` holds `h` and leaves the page tidy. -/
structure Sound (C : Matter → Prop) (id : Nat) (b : Browser) (h : Holding) (e : Editor Browser NodeId) : Prop where
  seats : b.SameSeats e.page
  tidy : Tidy C id e.page h
  holding : e.state.holding = h

section

variable {C : Matter → Prop} {id : Nat} {b p : Browser} {h : Holding} {e e' : Editor Browser NodeId} {n : NodeId}
  {w : Wiring}
  {deal : Dispatcher} {origin : String}

/-! ## Letting go -/

theorem Sound.aside (s : Sound C id b h e) (ha : Aside C e e') : Sound C id b h e' :=
  ⟨s.seats.trans ha.page.seats, s.tidy.meanwhile ha.page, ha.holding.trans s.holding⟩

theorem attribute?_removed (d : Document) (n : NodeId) (name : String) :
    (d.setAttribute n name none).attribute? n name = none := by
  rw [attribute?_setAttribute]
  split
  · rfl
  · rename_i hn
    unfold attribute?
    cases he : d.element? n with
    | none => rfl
    | some x => exact absurd ⟨rfl, rfl, he ▸ rfl⟩ hn

/-- To release a selection adds nothing. -/
theorem addsNothing_released (d : Document) (x : Option (Selection NodeId)) : AddsNothing C d (d.released x) := by
  cases x with
  | none => exact .refl d
  | some x =>
    refine (addsNothing_dropAttribute d x.element (by decide : Overlay.selectedAttribute ≠ "id")).trans ?_
    obtain ⟨n, style⟩ := x
    cases style with
    | none => exact addsNothing_dropAttribute _ _ (by decide)
    | some style => exact addsNothing_putAttribute _ _ (by decide) style

/-- A sound editor that releases its selection is sound. -/
theorem Sound.releaseSelection (s : Sound C id b h e) : letI := page w deal
    Sound C id b { h with selected := none } e.releaseSelection := by
  let := page w deal
  have meanwhile : Meanwhile C e.page (e.page.onDocument fun d => d.released e.state.selection) :=
    .onDocument (addsNothing_released _ _)
  rw [releaseSelection_eq]
  refine ⟨s.seats.trans meanwhile.seats, (s.tidy.meanwhile meanwhile).drop fun _ n hn => ?_, ?_⟩
  · rw [← s.holding] at hn
    obtain ⟨x, hx, rfl⟩ := Option.map_eq_some_iff.1 hn
    show (e.page.document.released e.state.selection).attribute? x.element _ = none
    rw [hx, Document.released, attribute?_setAttribute, if_neg fun same => absurd same.2.1 (by decide)]
    exact attribute?_removed _ _ _
  · rw [← s.holding]
    rfl

/-- To put an edited element back adds nothing. -/
theorem addsNothing_unedited {d : Document} (hd : d.Rooted) (commit : Bool) (x : Option (Session NodeId))
    (hx : ∀ y, x = some y → d.Fit C y.element) : AddsNothing C d (d.unedited commit x) := by
  cases x with
  | none => exact .refl d
  | some x =>
    have fit := hx x rfl
    obtain ⟨el, hel⟩ := Option.isSome_iff_exists.1 fit.element
    have written : AddsNothing C d (if commit then d else d.setTextContent x.element x.openingText) := by
      split
      · exact .refl d
      · refine addsNothing_setTextContent hd (lt_fresh_of_element? hel) _ fun c =>
          ⟨?_, (isRoot_eq_false.1 (fit.inside c)).2⟩
        intro htop
        rw [htop, hd.element?_top] at hel
        cases hel
    exact (written.trans (addsNothing_dropAttribute _ _ (by decide : Overlay.editableAttribute ≠ "id"))).trans
      (addsNothing_dropAttribute _ _ (by decide : Overlay.editingAttribute ≠ "id"))

theorem ne_hook_of_mem_sessionListeners {x : Option (Session NodeId)} {l : Listener} (hl : l ∈ sessionListeners id x)
    (k : Nat) : l.callback ≠ .hook k := by
  cases x with
  | none => cases hl
  | some x => exact ne_hook_of_mem_elementListeners hl k

/-- Ending the editing of a text takes the mark and the listeners away that went with it. -/
theorem Sound.endEdit (s : Sound C id b h e) (commit : Bool) : letI := page (.wired id origin) deal
    Sound C id b { h with edited := none } (e.endEdit commit) ∧ Meanwhile C e.page (e.endEdit commit).page := by
  let := page (.wired id origin) deal
  obtain ⟨p, he, said⟩ := endEdit_eq id origin deal e commit
  have edited : ∀ y, e.state.session = some y → h.edited = some y.element := by
    intro y hy
    rw [← s.holding]
    exact congrArg (Option.map Session.element) hy
  have session : ∀ n, h.edited = some n → ∃ y, e.state.session = some y ∧ y.element = n := by
    intro n hn
    rw [← s.holding] at hn
    exact Option.map_eq_some_iff.1 hn
  have written : Meanwhile C e.page (e.page.onDocument fun d => d.unedited commit e.state.session) :=
    .onDocument (addsNothing_unedited s.tidy.rooted commit _ fun y hy => s.tidy.edited _ (edited y hy))
  obtain ⟨silent, gone⟩ := Meanwhile.foldl_unlisten (C := C)
    (e.page.onDocument fun d => d.unedited commit e.state.session) (sessionListeners id e.state.session)
    fun l hl k hk => ne_hook_of_mem_sessionListeners hl k hk
  have all := (written.trans silent).trans (.of_undisturbed said)
  rw [he]
  refine ⟨⟨s.seats.trans all.seats, (s.tidy.meanwhile all).dropEdit (fun _ n hn => ?_) fun n hn l hl => ?_, ?_⟩, all⟩
  · obtain ⟨y, hy, rfl⟩ := session n hn
    rw [said.document, (Browser.foldl_unlisten _ _).2.1]
    show (e.page.document.unedited commit e.state.session).attribute? y.element _ = none
    rw [hy]
    exact attribute?_removed _ _ _
  · obtain ⟨y, hy, rfl⟩ := session n hn
    rw [said.listeners]
    refine gone l ?_
    rw [hy]
    exact hl
  · rw [← s.holding]
    rfl

/-! ## Taking hold -/

/-- Listeners are added one after the other, as far as there is a document. -/
theorem foldl_tryListen (w : Wiring) (deal : Dispatcher) {α : Type} (f : α → Listener) (failure : String)
    (fields : α → List (String × String))
    (as : List α) (e : Editor Browser NodeId) : letI := page w deal
    as.foldl (fun e a => e.tryPage (fun p => p.tryListen (some (f a))) failure (fields a)) e =
      { e with page := (as.map f).foldl Browser.listen e.page } := by
  let := page w deal
  induction as generalizing e with
  | nil => rfl
  | cons a as ih =>
    rw [List.foldl_cons, ih]
    rfl

/-- An element is held before it is marked as selected. -/
theorem Sound.select (s : Sound C id b h e) (hm : h.mode ≠ .disabled) (hn : e.page.document.Fit C n) :
    letI := page w deal
    Sound C id b { h with selected := some n } (e.select n) := by
  let := page w deal
  have released : Sound C id b { h with selected := none } e.releaseSelection := s.releaseSelection
  have fit : e.releaseSelection.page.document.Fit C n := by
    rw [releaseSelection_eq]
    exact (addsNothing_released (C := C) _ _).fit s.tidy.rooted hn
  unfold Editor.select
  generalize e.releaseSelection = e₁ at released fit ⊢
  have marked := (released.tidy.take hm rfl fit).mark Overlay.selectedAttribute "true" (by decide)
    (fun _ => rfl) (fun hname => absurd hname (by decide)) (by decide)
  refine ⟨released.seats.trans ⟨rfl, rfl, rfl, rfl, fun _ _ _ => .rfl⟩, marked, ?_⟩
  show ({ e₁.state.holding with selected := some n } : Holding) = _
  rw [released.holding]

/-- So is an element before it is edited. -/
theorem Sound.openEdit (seats : b.SameSeats e.page) (tidy : Tidy C id e.page { h with edited := some n })
    (holding : e.state.holding = h) (hd : Calm deal) (hb : b.Busy) (text : String) (identity : Option Identity) :
    letI := page (.wired id origin) deal
    Sound C id b { h with edited := some n } (e.openEdit n text identity) := by
  let := page (.wired id origin) deal
  have focused : Aside C e (e.tryPage (fun page => Page.focus page n) "Failed to focus edited element" []) :=
    aside_focus e hd (seats.busy hb) n
  generalize he₁ : e.tryPage (fun page => Page.focus page n) "Failed to focus edited element" [] = e₁ at focused
  have listening : e₁.listenTo n = { e₁ with page := (elementListeners id n).foldl Browser.listen e₁.page } :=
    foldl_tryListen _ _ (fun l : ElementEvent => ⟨.node n, l.name, false, .elementEvents id⟩) _ _ ElementEvent.all e₁
  let e₂ : Editor Browser NodeId := { e₁ with
    page := ((elementListeners id n).foldl Browser.listen e₁.page).log ⟨.debug, "Inline edit started",
      [("identity", Text.Quoted.quote? (identity.map Identity.raw))]⟩
    state := { e₁.state with session := some ⟨n, text, identity⟩ } }
  have opened : Sound C id b { h with edited := some n } e₂ := by
    have heard := (tidy.meanwhile focused.page).foldl_listen (elementListeners id n) fun l hl => .element rfl hl
    have said := undisturbed_log ((elementListeners id n).foldl Browser.listen e₁.page) ⟨.debug, "Inline edit started",
      [("identity", Text.Quoted.quote? (identity.map Identity.raw))]⟩
    refine ⟨((seats.trans focused.page.seats).trans (sameSeats_foldl_listen _ fun l hl k hk => ?_)).trans said.seats,
      heard.meanwhile (.of_undisturbed said), ?_⟩
    · exact absurd hk (ne_hook_of_mem_elementListeners hl k)
    · show ({ e₁.state.holding with edited := some n } : Holding) = _
      rw [focused.holding, holding]
  unfold Editor.openEdit
  rw [he₁]
  dsimp only
  rw [listening]
  exact (opened.aside (aside_tellAbout e₂ n false _)).aside (aside_tellAbout _ n true _)

/-- A sound editor that begins an edit holds the element as edited. -/
theorem Sound.beginEdit (s : Sound C id b h e) (hm : h.mode ≠ .disabled) (he : h.edited = none)
    (hn : e.page.document.Fit C n) (hd : Calm deal) (hb : b.Busy) : letI := page (.wired id origin) deal
    Sound C id b { h with edited := some n } (e.beginEdit n) := by
  let := page (.wired id origin) deal
  have noticed : Aside C e (e.metadata n).2 := aside_metadata e n
  unfold Editor.beginEdit
  generalize e.metadata n = found at noticed ⊢
  obtain ⟨m, e₁⟩ := found
  have s₁ := s.aside noticed
  -- the element is taken hold of before it is marked, so that the mark is on what is held
  have taken := s₁.tidy.takeEdit hm he (noticed.page.document.fit s.tidy.rooted hn)
  have marked := taken.mark Overlay.editingAttribute "true" (by decide)
    (fun hname => absurd hname (by decide)) (fun _ => rfl) (by decide)
  have editable := marked.meanwhile (.onDocument
    (f := fun d => d.setAttribute n Overlay.editableAttribute (some "true"))
    (addsNothing_putAttribute _ n (by decide) "true"))
  let p := (e₁.page.onDocument fun d => d.setAttribute n Overlay.editingAttribute (some "true")).onDocument
    fun d => d.setAttribute n Overlay.editableAttribute (some "true")
  have both : Editor.markEdited e₁.page n = .ok p := rfl
  dsimp only
  rw [both]
  dsimp only
  exact Sound.openEdit (e := { e₁ with page := p }) (s₁.seats.trans ⟨rfl, rfl, rfl, rfl, fun _ _ _ => .rfl⟩) editable
    s₁.holding hd hb _ _

/-- A sound editor that starts an edit, after another maybe, is sound. -/
theorem Sound.startEdit (s : Sound C id b h e) (hm : h.mode ≠ .disabled) (hn : e.page.document.Fit C n)
    (hd : Calm deal) (hb : b.Busy) : letI := page (.wired id origin) deal
    ∃ h, Sound C id b h (e.startEdit n) := by
  let := page (.wired id origin) deal
  unfold Editor.startEdit
  split
  · exact ⟨h, s⟩
  · obtain ⟨ended, meanwhile⟩ : Sound C id b { h with edited := none } (e.endEdit false) ∧
        Meanwhile C e.page (e.endEdit false).page := s.endEdit false
    exact ⟨_, ended.beginEdit hm rfl (meanwhile.document.fit s.tidy.rooted hn) hd hb⟩

/-! ## Events of the page -/

/-- What is found from the inside to the outside, and inside the body, is neither the body nor around it. -/
theorem fit_of_identified? {target : NodeId} : letI := page w deal
    e.identified? target = some n → e.page.document.Fit C n := by
  let := page w deal
  intro h
  have found := List.mem_of_find?_eq_some h
  have inside := List.mem_takeWhile_imp found
  have element := (List.mem_filter.1 ((List.takeWhile_prefix _).subset found)).2
  exact ⟨element, fun _ => (Bool.not_eq_true' _).mp inside⟩

/-- A sound editor of which an element is clicked is sound. -/
theorem Sound.clickElement (s : Sound C id b h e) (hm : h.mode ≠ .disabled) (hn : e.page.document.Fit C n)
    (hd : Calm deal) (hb : b.Busy) : letI := page (.wired id origin) deal
    ∃ h, Sound C id b h (e.clickElement n) := by
  let := page (.wired id origin) deal
  have noticed : Aside C e (e.metadata n).2 := aside_metadata e n
  unfold Editor.clickElement
  generalize e.metadata n = found at noticed ⊢
  obtain ⟨m, e₁⟩ := found
  have s₁ := s.aside noticed
  dsimp only
  split
  · have selected : Sound C id b { h with selected := some n } (e₁.select n) :=
      s₁.select hm (noticed.page.document.fit s.tidy.rooted hn)
    have told : Sound C id b { h with selected := some n }
        ((e₁.select n).tellAbout n true fun d => .selectionChanged (some d)) := selected.aside (aside_tellAbout _ n true _)
    split
    · exact told.startEdit hm (told.tidy.selected n rfl) hd hb
    · exact ⟨_, told⟩
  · exact ⟨h, s₁.aside (aside_log e₁ _ _ _)⟩

theorem isActive_ne {m : EditMode} (h : m.isActive = true) : m ≠ .disabled := by
  rintro rfl
  cases h

theorem Sound.click (s : Sound C id b h e) (target : NodeId) (hd : Calm deal) (hb : b.Busy) :
    letI := page (.wired id origin) deal
    ∃ h, Sound C id b h (e.click target).1 := by
  let := page (.wired id origin) deal
  unfold Editor.click
  split
  · exact ⟨h, s⟩
  · rename_i active
    split
    · exact ⟨h, s⟩
    · have ended : Sound C id b { h with edited := none } (e.endEdit true) := (s.endEdit true).1
      have hm : h.mode ≠ .disabled := by
        rw [← s.holding]
        refine isActive_ne (Bool.eq_true_of_not_eq_false fun inactive => active ?_)
        rw [show e.state.mode.isActive = false from inactive]
        rfl
      dsimp only
      generalize e.endEdit true = e₁ at ended ⊢
      split
      · exact ⟨_, ended.releaseSelection.aside (aside_tell _ _)⟩
      · rename_i n hn
        dsimp only
        exact ended.clickElement hm (fit_of_identified? hn) hd hb

/-- A sound editor is sound after any key. -/
theorem Sound.keyDown (s : Sound C id b h e) (key : String) : letI := page (.wired id origin) deal
    ∃ h, Sound C id b h (e.keyDown key) := by
  let := page (.wired id origin) deal
  unfold Editor.keyDown
  split
  · exact ⟨_, (s.releaseSelection.aside (aside_clearHover _ true)).aside (aside_tell _ _)⟩
  · exact ⟨h, s⟩

/-- Whatever happened in the page, the editor leaves it tidy. -/
theorem sound_handleEvent (s : Sound C id b h e) (event : PageEvent NodeId) (hd : Calm deal) (hb : b.Busy) :
    letI := page (.wired id origin) deal
    ∃ h, Sound C id b h (e.handleEvent event).1 := by
  let := page (.wired id origin) deal
  cases event with
  | click target => exact s.click target hd hb
  | submit target => exact ⟨h, s⟩
  | keyDown key => exact s.keyDown key
  | pointerOver target => exact ⟨h, s.aside (aside_pointerOver e target)⟩
  | scroll => exact ⟨h, s.aside (aside_clearHover e true)⟩
  | input element => exact ⟨h, s.aside (aside_input e element)⟩
  | blur element =>
    show ∃ h, Sound C id b h (ite _ _ _ : Editor Browser NodeId × Response).1
    split
    · exact ⟨_, (s.endEdit true).1⟩
    · exact ⟨h, s⟩
  | editKeyDown element key =>
    show ∃ h, Sound C id b h (ite _ _ _ : Editor Browser NodeId × Response).1
    split
    · exact ⟨_, (s.endEdit false).1⟩
    · exact ⟨h, s⟩

/-! ## Changes of modes -/

theorem addsNothing_ownSheet (t : Tidy C id b h) {sheet : String} (hs : sheet ∈ ownIds) :
    AddsNothing C b.document (b.document.removeStylesheet sheet) :=
  addsNothing_removeStylesheet t.rooted sheet fun c n hn => t.sheets c sheet hs n hn

/-- The editor may put its style sheets into the page while it is active. -/
theorem Tidy.inject (w : Wiring) (deal : Dispatcher) (t : Tidy C id e.page h) (hm : h.mode ≠ .disabled)
    (sheet css : String) (hs : sheet ∈ ownIds) : letI := page w deal
    ∃ p, e.injectStylesheet sheet css = { e with page := p } ∧ e.page.SameSeats p ∧ Tidy C id p h := by
  let := page w deal
  let e₁ := e.removeStylesheet sheet
  have t₁ : Tidy C id e₁.page h := t.meanwhile (.onDocument (f := fun d => d.removeStylesheet sheet)
    (addsNothing_ownSheet t hs))
  have seats : e.page.SameSeats e₁.page := ⟨rfl, rfl, rfl, rfl, fun _ _ _ => .rfl⟩
  unfold Editor.injectStylesheet
  cases hi : e₁.page.document.injectStylesheet sheet css with
  | ok d' =>
    have done : (Page.injectStylesheet e₁.page sheet css : Except PageError Browser) =
        .ok (e₁.page.onDocument fun _ => d') := by
      show (e₁.page.document.injectStylesheet sheet css).map _ = _
      rw [hi]
      rfl
    exact ⟨e₁.page.onDocument fun _ => d', tryPage_ok (e := e₁) done _ _,
      seats.trans ⟨rfl, rfl, rfl, rfl, fun _ _ _ => .rfl⟩, t₁.injectStylesheet hm hi⟩
  | error fault =>
    have failed : (Page.injectStylesheet e₁.page sheet css : Except PageError Browser) = .error fault := by
      show (e₁.page.document.injectStylesheet sheet css).map _ = _
      rw [hi]
      rfl
    have said := undisturbed_log e₁.page ⟨.warn, "Failed to inject stylesheet", [("id", sheet)] ++
      [("error", fault.message)]⟩
    exact ⟨_, tryPage_error (e := e₁) failed _ _, seats.trans said.seats, t₁.meanwhile (.of_undisturbed said)⟩

/-- A tidy page stays so when the editor listens to it. -/
theorem Tidy.startListening (origin : String) (deal : Dispatcher) (t : Tidy C id e.page h)
    (hl : h.listening = true) : letI := page (.wired id origin) deal
    ∃ p, e.listen = { e with page := p, state := { e.state with listening := true } } ∧ e.page.SameSeats p ∧
      Tidy C id p h := by
  let := page (.wired id origin) deal
  unfold Editor.listen
  split
  · rename_i listening
    refine ⟨e.page, ?_, .refl e.page, t⟩
    cases e with
    | mk p config state names =>
      cases state
      cases listening
      rfl
  · have heard := foldl_tryListen (.wired id origin) deal
      (fun l : DocumentEvent => ⟨.node Document.top, l.name, true, .documentEvents id⟩) "Failed to add listener"
      (fun l => [("event", l.name)]) DocumentEvent.all e
    refine ⟨(documentListeners id).foldl Browser.listen e.page,
      congrArg (fun e : Editor Browser NodeId => { e with state := { e.state with listening := true } }) heard,
      sameSeats_foldl_listen _ fun l hin k hk => ?_, t.foldl_listen _ fun l hin => .document hl hin⟩
    exact absurd hk (ne_hook_of_mem_documentListeners hin k)

/-- Entering a mode other than the disabled one. -/
theorem Sound.enter (s : Sound C id b h e) {m : EditMode} (hm : m ≠ .disabled) : letI := page w deal
    Sound C id b { h with mode := m } (e.enter m) := by
  let := page w deal
  obtain ⟨p, he, said⟩ := enter_eq w deal e m
  rw [he]
  refine ⟨s.seats.trans said.seats, (s.tidy.enable hm h.listening fun hl => hl).meanwhile (.of_undisturbed said), ?_⟩
  rw [← s.holding]
  rfl

/-- A sound editor that is enabled listens, and is sound. -/
theorem Sound.enable (s : Sound C id b h e) : letI := page (.wired id origin) deal
    Sound C id b { h with mode := .enabled, listening := true } e.enable := by
  let := page (.wired id origin) deal
  -- from the beginning the page is seen as that of the enabled editor
  have t : Tidy C id e.page { h with mode := .enabled, listening := true } :=
    s.tidy.enable (m := .enabled) nofun true fun _ => rfl
  obtain ⟨p₁, h₁, seats₁, t₁⟩ := t.inject (.wired id origin) deal nofun Overlay.stylesId Overlay.styles (by decide)
  obtain ⟨p₂, h₂, seats₂, t₂⟩ := Tidy.startListening (e := { e with page := p₁ }) origin deal t₁ rfl
  let p₄ := (p₂.onDocument fun d => d.setBodyCursor (some e.config.cursor)).onDocument
    fun d => d.setBodyAttribute Overlay.savingAttribute none
  have stripped : Meanwhile C p₂ p₄ :=
    (Meanwhile.onDocument (f := fun d => d.setBodyCursor (some e.config.cursor)) (addsNothing_setBodyCursor _ _)).trans
      (.onDocument (addsNothing_dropBodyAttribute _ (by decide)))
  let e₄ : Editor Browser NodeId := { e with page := p₄, state := { e.state with listening := true } }
  obtain ⟨p₅, h₅, seats₅, t₅⟩ := Tidy.inject (e := e₄) (.wired id origin) deal (t₂.meanwhile stripped) nofun
    Overlay.scrollId Overlay.scrollStyles (by decide)
  have seats : b.SameSeats p₅ := (((s.seats.trans seats₁).trans seats₂).trans stripped.seats).trans seats₅
  obtain ⟨p₆, h₆, said⟩ := enter_eq (.wired id origin) deal { e₄ with page := p₅ } .enabled
  have done : e.enable = { e with page := p₆, state := { e.state with listening := true, mode := .enabled } } := by
    unfold Editor.enable
    rw [h₁]
    dsimp only
    rw [h₂]
    exact (congrArg (fun e : Editor Browser NodeId => e.enter .enabled) h₅).trans h₆
  rw [done]
  refine ⟨seats.trans said.seats, t₅.meanwhile (.of_undisturbed said), ?_⟩
  rw [← s.holding]
  rfl

/-- A sound editor is sound after saving. -/
theorem Sound.leaveSaving (s : Sound C id b h e) : letI := page w deal
    Sound C id b { h with mode := .enabled } e.leaveSaving := by
  let := page w deal
  let e₁ := e.setBodyAttribute Overlay.savingAttribute none
  have unmarked : Aside C e e₁ :=
    ⟨.onDocument (f := fun d => d.setBodyAttribute Overlay.savingAttribute none)
      (addsNothing_dropBodyAttribute _ (by decide)), rfl⟩
  exact (s.aside unmarked).enter nofun

/-- A sound editor that begins to save is sound. -/
theorem Sound.enterSaving (s : Sound C id b h e) (hm : h.mode ≠ .disabled) : letI := page (.wired id origin) deal
    ∃ h, Sound C id b h e.enterSaving := by
  let := page (.wired id origin) deal
  have marked : Sound C id b h (e.setBodyAttribute Overlay.savingAttribute (some "true")) :=
    ⟨s.seats.trans ⟨rfl, rfl, rfl, rfl, fun _ _ _ => .rfl⟩, s.tidy.setSaving hm (some "true"), s.holding⟩
  have still : Sound C id b { h with edited := none, selected := none } ((((e.setBodyAttribute Overlay.savingAttribute
      (some "true")).endEdit false).releaseSelection).clearHover false) :=
    (marked.endEdit false).1.releaseSelection.aside (aside_clearHover _ false)
  unfold Editor.enterSaving
  dsimp only
  generalize (((e.setBodyAttribute Overlay.savingAttribute (some "true")).endEdit false).releaseSelection).clearHover
    false = e₁ at still ⊢
  refine ⟨_, still.seats, still.tidy.enable (m := .saving) nofun h.listening fun hl => hl, ?_⟩
  show ({ e₁.state.holding with mode := .saving } : Holding) = _
  rw [still.holding]

/-- To take the marks of the hover away adds nothing. -/
theorem addsNothing_unhovered (d : Document) (x : Option NodeId) : AddsNothing C d (d.unhovered x) := by
  cases x with
  | none => exact .refl d
  | some n =>
    exact (addsNothing_dropAttribute d n (by decide : Overlay.hoveredAttribute ≠ "id")).trans
      (addsNothing_dropAttribute _ n (by decide : Overlay.fullWidthAttribute ≠ "id"))

/-- What becomes of the document before the style sheets are removed. -/
theorem addsNothing_unmarked {d : Document} {s : EditorState NodeId} (hd : d.Rooted)
    (edited : ∀ x, s.session = some x → d.Fit C x.element) : AddsNothing C d (d.unmarked s) :=
  (((addsNothing_unedited hd false s.session edited).trans (addsNothing_setBodyCursor _ none)).trans
    (addsNothing_dropBodyAttribute _ (by decide))).trans ((addsNothing_released _ s.selection).trans
      (addsNothing_unhovered _ s.hover))

/-- Both style sheets are removed, as neither is the root element or the body. -/
theorem addsNothing_removeStylesheets {d : Document} (hd : d.Rooted)
    (outside : ∀ sheet ∈ ownIds, Placed C → ∀ n, d.Carries sheet n → d.isRoot n = false) :
    AddsNothing C d ((d.removeStylesheet Overlay.stylesId).removeStylesheet Overlay.scrollId) ∧
      ∀ sheet ∈ ownIds, ((d.removeStylesheet Overlay.stylesId).removeStylesheet Overlay.scrollId).byId? sheet = none := by
  have first : AddsNothing C d (d.removeStylesheet Overlay.stylesId) :=
    addsNothing_removeStylesheet hd _ (outside _ (by decide))
  have rooted := first.rooted hd
  refine ⟨first.trans (addsNothing_removeStylesheet rooted _ fun c n hn => ?_), fun sheet hs => ?_⟩
  · exact (first.isRoot c hd n).trans (outside _ (by decide) c n (first.carries c.sheets hd _ (by decide) n hn))
  · rcases List.mem_cons.1 hs with rfl | hs
    · exact byId?_removeStylesheet_of_absent rooted _ (byId?_removeStylesheet hd _)
    · rw [List.mem_singleton.1 hs]
      exact byId?_removeStylesheet rooted _

/-- A page that is tidy is bare when the editor has let go of everything. -/
theorem Tidy.undressed {s : EditorState NodeId} (t : Tidy C id b s.holding) :
    AddsNothing C b.document (b.document.undressed s) ∧
      (∀ x, s.session = some x → C (.mark Overlay.editingAttribute) →
        (b.document.undressed s).attribute? x.element Overlay.editingAttribute = none) ∧
      (∀ x, s.selection = some x → C (.mark Overlay.selectedAttribute) →
        (b.document.undressed s).attribute? x.element Overlay.selectedAttribute = none) ∧
      (∀ sheet ∈ ownIds, (b.document.undressed s).byId? sheet = none) ∧
      (C (.mark Overlay.savingAttribute) → Placed C → ∀ n,
        (b.document.undressed s).attribute? n Overlay.savingAttribute = none) := by
  have edited : ∀ x, s.session = some x → b.document.Fit C x.element := fun x hx =>
    t.edited _ (congrArg (Option.map Session.element) hx)
  let d₁ := b.document.unedited false s.session
  let d₂ := (d₁.setBodyCursor none).setBodyAttribute Overlay.savingAttribute none
  have unmarked : AddsNothing C b.document (b.document.unmarked s) := addsNothing_unmarked t.rooted edited
  obtain ⟨removed, gone⟩ := addsNothing_removeStylesheets (C := C) (unmarked.rooted t.rooted) fun sheet hs c n hn =>
    (unmarked.isRoot c t.rooted n).trans (t.sheets c sheet hs n (unmarked.carries c.sheets t.rooted sheet hs n hn))
  have hover : AddsNothing C (d₂.released s.selection) (b.document.undressed s) :=
    (addsNothing_unhovered _ s.hover).trans removed
  have selection : AddsNothing C d₂ (b.document.undressed s) := (addsNothing_released d₂ s.selection).trans hover
  have session : AddsNothing C d₁ (b.document.undressed s) := ((addsNothing_setBodyCursor d₁ none).trans
    (addsNothing_dropBodyAttribute _ (by decide))).trans selection
  refine ⟨unmarked.trans removed, fun x hx c => ?_, fun x hx c => ?_, gone, fun c c' n => ?_⟩
  · refine session.marks _ (by decide) c _ ?_
    show (b.document.unedited false s.session).attribute? _ _ = none
    rw [hx]
    exact attribute?_removed _ _ _
  · refine hover.marks _ (by decide) c _ ?_
    rw [hx, Document.released, attribute?_setAttribute, if_neg fun same => absurd same.2.1 (by decide)]
    exact attribute?_removed _ _ _
  · refine selection.marks _ (by decide) c n ?_
    show ((d₁.setBodyCursor none).setBodyAttribute _ none).attribute? n _ = none
    rw [attribute?_setBodyAttribute]
    split
    · rfl
    · rename_i hn
      have cursor : AddsNothing C b.document (d₁.setBodyCursor none) :=
        (addsNothing_unedited t.rooted false s.session edited).trans (addsNothing_setBodyCursor d₁ none)
      refine cursor.marks _ (by decide) c n (Classical.byContradiction fun some => hn ⟨?_, rfl⟩)
      exact (cursor.body c' t.rooted).trans (t.savingMark c c' n some)

theorem ne_hook_of_mem_givenUp {s : EditorState NodeId} {l : Listener} (hl : l ∈ givenUp id s) (k : Nat) :
    l.callback ≠ .hook k := by
  rcases List.mem_append.1 hl with hl | hl
  · exact ne_hook_of_mem_sessionListeners hl k
  · split at hl
    · exact ne_hook_of_mem_documentListeners hl k
    · cases hl

/-- Where an editor has given up its listeners, none of them hears events of the document. -/
theorem Tidy.silent {p : Browser} {s : EditorState NodeId} (t : Tidy C id p h) (edited : h.edited = none)
    (listening : h.listening = s.listening) (kept : ∀ l ∈ p.listeners, l ∉ givenUp id s) :
    ∀ l ∈ documentListeners id, l ∉ p.listeners := by
  intro l hl hin
  cases t.listeners l hin with
  | hook k hk => exact ne_hook_of_mem_documentListeners hl k hk
  | messages => cases callback_of_mem_documentListeners hl
  | loading => cases callback_of_mem_documentListeners hl
  | document hlistening _ =>
    refine kept l hin (List.mem_append_right _ ?_)
    rw [if_pos (listening.symm.trans hlistening)]
    exact hl
  | element hn _ => cases edited.symm.trans hn

/-- A sound editor that is disabled holds nothing any more. -/
theorem Sound.disable (s : Sound C id b h e) : letI := page (.wired id origin) deal
    Sound C id b ⟨.disabled, none, none, false⟩ e.disable := by
  let := page (.wired id origin) deal
  obtain ⟨p, he, frame, document, listeners⟩ := disable_eq id origin deal e
  have t := s.tidy
  rw [← s.holding] at t
  obtain ⟨changes, unedited, unselected, bare, unsaved⟩ := t.undressed
  rw [← document] at changes unedited unselected bare unsaved
  have kept : ∀ l, l ∈ p.listeners ↔ l ∈ e.page.listeners ∧ l ∉ givenUp id e.state := fun l => by
    rw [listeners, List.mem_filter, decide_eq_true_iff]
  have seats : e.page.SameSeats p :=
    ⟨frame.window, frame.observers, frame.editors, frame.handle, fun l k hl =>
      (kept l).trans (and_iff_left fun hin => ne_hook_of_mem_givenUp hin k hl)⟩
  have meanwhile : Meanwhile C e.page p := ⟨seats, fun l hl => ((kept l).1 hl).1, changes⟩
  have free := ((t.meanwhile meanwhile).drop fun c n hn => by
    obtain ⟨x, hx, rfl⟩ := Option.map_eq_some_iff.1 hn
    exact unselected x hx c).dropEdit (fun c n hn => by
      obtain ⟨x, hx, rfl⟩ := Option.map_eq_some_iff.1 hn
      exact unedited x hx c) fun n hn l hl hin => by
        obtain ⟨x, hx, rfl⟩ := Option.map_eq_some_iff.1 hn
        refine ((kept l).1 hin).2 (List.mem_append_left _ ?_)
        rw [hx]
        exact hl
  rw [he]
  exact ⟨s.seats.trans seats, free.disable rfl rfl (free.silent rfl rfl fun l hl => ((kept l).1 hl).2) bare unsaved, rfl⟩

/-- A command to change the mode leaves the page tidy. -/
theorem sound_setMode (s : Sound C id b h e) (m : EditMode) : letI := page (.wired id origin) deal
    ∃ h, Sound C id b h (e.setMode m).1 := by
  let := page (.wired id origin) deal
  have logged : ∀ {e' : Editor Browser NodeId} (level : LogLevel) (message : String) (fields : List (String × String)),
      (∃ h, Sound C id b h e') → ∃ h, Sound C id b h (e'.log level message fields) :=
    fun _ _ _ ⟨h, s⟩ => ⟨h, s.aside (aside_log _ _ _ _)⟩
  unfold Editor.setMode
  dsimp only
  by_cases hsame : e.state.mode = m
  · rw [if_pos hsame]
    exact logged _ _ _ ⟨h, s⟩
  · rw [if_neg hsame]
    by_cases hcan : Editor.canFollow e.state.mode m = true
    · rw [if_pos hcan]
      refine logged _ _ _ ?_
      have mode : h.mode = e.state.mode := congrArg Holding.mode s.holding.symm
      cases hm : e.state.mode with
      | disabled => exact ⟨_, s.enable⟩
      | enabled =>
        cases m with
        | disabled => exact ⟨_, s.disable⟩
        | enabled => exact absurd hm hsame
        | saving => exact s.enterSaving (by rw [mode, hm]; nofun)
      | saving =>
        cases m with
        | disabled => exact ⟨_, s.disable⟩
        | enabled => exact ⟨_, s.leaveSaving⟩
        | saving => exact absurd hm hsame
    · rw [if_neg hcan]
      exact logged _ _ _ ⟨h, s⟩

/-! ## Commands of the host -/

/-- A sound editor that lets an element go holds nothing new. -/
theorem Sound.letGo (s : Sound C id b h e) (n : NodeId) : letI := page (.wired id origin) deal
    ∃ edited, Sound C id b { h with edited := edited } (e.letGo n) := by
  let := page (.wired id origin) deal
  have ended : ∃ edited, Sound C id b { h with edited := edited }
      (if e.state.editing? = some n then e.endEdit false else e) := by
    split
    · exact ⟨none, (s.endEdit false).1⟩
    · exact ⟨h.edited, s⟩
  unfold Editor.letGo
  dsimp only
  generalize (if e.state.editing? = some n then e.endEdit false else e) = e₁ at ended ⊢
  obtain ⟨edited, s₁⟩ := ended
  refine ⟨edited, ?_⟩
  split
  · exact s₁.aside (aside_clearHover _ false)
  · exact s₁

/-- A deleted element is let go of, and no longer marked. -/
theorem Sound.deleteElement (s : Sound C id b h e) (hn : h.selected = some n) : letI := page (.wired id origin) deal
    ∃ h, Sound C id b h (e.deleteElement n).1 := by
  let := page (.wired id origin) deal
  have let_go : ∃ edited, Sound C id b { h with edited := edited } (e.letGo n) := s.letGo n
  unfold Editor.deleteElement
  dsimp only
  generalize e.letGo n = e₁ at let_go ⊢
  obtain ⟨edited, s₁⟩ := let_go
  cases hr : Page.remove? e₁.page n with
  | none => exact ⟨_, s₁.aside (aside_log e₁ _ _ _)⟩
  | some p =>
    -- what is selected stands inside of the document, so neither the root nor the body goes with it
    have detached : Meanwhile C e₁.page p := by
      obtain ⟨d, hd, rfl⟩ := Option.map_eq_some_iff.1 hr
      obtain ⟨-, -, rfl⟩ := Option.map_eq_some_iff.1 hd
      exact Meanwhile.onDocument (f := fun d => d.detach n) (addsNothing_detach _ n (s₁.tidy.selected n hn).inside)
    let e₂ : Editor Browser NodeId := { e₁ with page := p }
    let e₃ := (e₂.log .debug "Deleted selected element" []).removeAttribute n Overlay.selectedAttribute
    have removed : Aside C e₁ e₂ := ⟨detached, rfl⟩
    have taken : Aside C e₁ e₃ := (removed.trans (aside_log e₂ .debug "Deleted selected element" [])).trans
      (aside_removeAttribute _ n Overlay.selectedAttribute (by decide))
    have s₃ := s₁.aside taken
    refine ⟨{ h with edited := edited, selected := none }, s₃.seats, s₃.tidy.drop fun _ m hm => ?_, ?_⟩
    · have same : n = m := Option.some.inj (hn.symm.trans hm)
      subst same
      exact attribute?_removed _ _ _
    · have holding := s₃.holding
      show ({ e₃.state.holding with selected := none } : Holding) = _
      rw [holding]

/-- What is done to the selected element may suppose that it is held. -/
theorem sound_withSelected (s : Sound C id b h e) (kind : String)
    {act : Editor Browser NodeId → NodeId → Editor Browser NodeId × Outcome} : letI := page (.wired id origin) deal
    (∀ n, h.selected = some n → ∃ h, Sound C id b h (act e n).1) → ∃ h, Sound C id b h (e.withSelected kind act).1 := by
  let := page (.wired id origin) deal
  intro hact
  unfold Editor.withSelected
  split
  · rename_i n hn
    exact hact n (by rw [← s.holding]; exact hn)
  · exact ⟨h, s.aside (aside_log e _ _ _)⟩

/-- Whatever the host asks for, the editor leaves the page tidy. -/
theorem sound_handleCommand (s : Sound C id b h e) (c : Command) : letI := page (.wired id origin) deal
    ∃ h, Sound C id b h (e.handleCommand c).1 := by
  let := page (.wired id origin) deal
  cases c with
  | setMode m => exact sound_setMode s m
  | updateText text => exact sound_withSelected s _ fun n hn =>
      ⟨h, s.aside (aside_updateText e s.tidy.rooted (s.tidy.selected n hn) text)⟩
  | updateStyles styles => exact sound_withSelected s _ fun n _ => ⟨h, s.aside (aside_updateStyles e n styles)⟩
  | updateClasses changes => exact sound_withSelected s _ fun n _ => ⟨h, s.aside (aside_updateClasses e n changes)⟩
  | deleteElement => exact sound_withSelected s _ fun n hn => s.deleteElement hn
  | clearSelection => exact ⟨_, (s.endEdit false).1.releaseSelection.aside (aside_tell _ _)⟩

/-- A sound editor is sound after any message. -/
theorem sound_receive (s : Sound C id b h e) (content : Json) (fromParent : Bool) : letI := page (.wired id origin) deal
    ∃ h, Sound C id b h (e.receive content fromParent).1 := by
  let := page (.wired id origin) deal
  unfold Editor.receive
  split
  · exact sound_handleCommand s _
  · split
    · exact ⟨h, s.aside (aside_log e _ _ _)⟩
    · exact ⟨h, s.aside (aside_log e _ _ _)⟩

end

end InPlace.Browser

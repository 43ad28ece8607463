import InPlace.Proofs.Headless.Parts
import InPlace.Proofs.Messages.Topic

/-!
# Aspects of an editor

What can be seen of an editor in a page falls into aspects: the parts of the document, the fields of the
editor's state, and for each topic the messages about it. A reaction touches only some of them.
`Editor.Only as e e'` says that `e'` differs from `e` in these aspects at most. It also says what every
reaction keeps: the configuration, the elements, and the messages that were sent before.

Such statements compose by `Only.trans`. Here are those about the smallest changes; the editor's reactions are
composed of them in `InPlace.Proofs.Editing.Footprints`.

Main statements: `Only.trans`, `tryPage_only`, `tell_only` and `state_only`.
-/

namespace InPlace

open Headless (Document Part)

/-- Something that can be seen of an editor in a page. -/
inductive Aspect where
  | page (p : Part)
  | mode
  | listening
  | ready
  | hover
  | selection
  | session
  /-- Whether messages can be sent. -/
  | channel
  /-- All messages that were sent. -/
  | outbox
  /-- The messages about a topic. -/
  | told (t : Topic)
  deriving DecidableEq

namespace Editor

/-- The messages about a topic that an editor has sent. -/
def told (e : HeadlessEditor) (t : Topic) : List Envelope :=
  e.page.outbox.sent.filter fun m => m.topic? == some t

end Editor

namespace Aspect

/-- Whether an aspect is the same of two editors. -/
def Same : Aspect → HeadlessEditor → HeadlessEditor → Prop
  | page p, e, e' => p.Same e.page.document e'.page.document
  | mode, e, e' => e'.state.mode = e.state.mode
  | listening, e, e' => e'.state.listening = e.state.listening
  | ready, e, e' => e'.state.ready = e.state.ready
  | hover, e, e' => e'.state.hover = e.state.hover
  | selection, e, e' => e'.state.selection = e.state.selection
  | session, e, e' => e'.state.session = e.state.session
  | channel, e, e' => e'.page.outbox.failing = e.page.outbox.failing
  | outbox, e, e' => e'.page.outbox.sent = e.page.outbox.sent
  | told t, e, e' => e'.told t = e.told t

theorem Same.refl (a : Aspect) (e : HeadlessEditor) : a.Same e e := by
  cases a with
  | page p => exact Part.Same.refl p _
  | _ => rfl

theorem Same.trans {a : Aspect} {e e' e'' : HeadlessEditor} (h : a.Same e e')
    (h' : a.Same e' e'') : a.Same e e'' := by
  cases a with
  | page p => exact Part.Same.trans h h'
  | _ => exact Eq.trans h' h

end Aspect

namespace Editor

/-- The second editor differs from the first in these aspects at most, and comes after it. -/
structure Only (as : List Aspect) (e e' : HeadlessEditor) : Prop where
  config : e'.config = e.config
  sent : e.page.outbox.sent <+: e'.page.outbox.sent
  elements : ∀ n, (e.page.document.element? n).isSome → (e'.page.document.element? n).isSome
  same : ∀ a, a ∉ as → a.Same e e'

section Only

variable {as bs : List Aspect} {e e' e'' : HeadlessEditor}

theorem Only.refl (as : List Aspect) (e : HeadlessEditor) : Only as e e :=
  ⟨rfl, List.prefix_refl _, fun _ h => h, fun a _ => .refl a e⟩

theorem Only.mono (h : Only as e e') (hsub : as ⊆ bs) : Only bs e e' :=
  { h with same := fun a ha => h.same a fun hin => ha (hsub hin) }

/-- What one change leaves alone and the next one too is left alone by both. -/
theorem Only.trans (h : Only as e e') (h' : Only bs e' e'') : Only (as ++ bs) e e'' where
  config := h'.config.trans h.config
  sent := h.sent.trans h'.sent
  elements n hn := h'.elements n (h.elements n hn)
  same a ha := by
    rw [List.mem_append, not_or] at ha
    exact (h.same a ha.1).trans (h'.same a ha.2)

theorem Only.mode_eq (h : Only as e e') (ha : .mode ∉ as) : e'.state.mode = e.state.mode :=
  h.same .mode ha

theorem Only.ready_eq (h : Only as e e') (ha : .ready ∉ as) : e'.state.ready = e.state.ready :=
  h.same .ready ha

theorem Only.hover_eq (h : Only as e e') (ha : .hover ∉ as) : e'.state.hover = e.state.hover :=
  h.same .hover ha

theorem Only.selection_eq (h : Only as e e') (ha : .selection ∉ as) :
    e'.state.selection = e.state.selection :=
  h.same .selection ha

theorem Only.session_eq (h : Only as e e') (ha : .session ∉ as) :
    e'.state.session = e.state.session :=
  h.same .session ha

theorem Only.selected?_eq (h : Only as e e') (ha : .selection ∉ as) :
    e'.state.selected? = e.state.selected? :=
  congrArg (Option.map Selection.element) (h.selection_eq ha)

theorem Only.editing?_eq (h : Only as e e') (ha : .session ∉ as) :
    e'.state.editing? = e.state.editing? :=
  congrArg (Option.map Session.element) (h.session_eq ha)

theorem Only.failing_eq (h : Only as e e') (ha : .channel ∉ as) :
    e'.page.outbox.failing = e.page.outbox.failing :=
  h.same .channel ha

theorem Only.sent_eq (h : Only as e e') (ha : .outbox ∉ as) :
    e'.page.outbox.sent = e.page.outbox.sent :=
  h.same .outbox ha

theorem Only.told_eq {t : Topic} (h : Only as e e') (ha : .told t ∉ as) : e'.told t = e.told t :=
  h.same (.told t) ha

/-- What leaves the messages about a topic as they are sends messages about others. -/
theorem Only.topic_ne {t : Topic} (h : Only as e e') (ha : .told t ∉ as) {ms : List Envelope}
    (hms : e'.page.outbox.sent = e.page.outbox.sent ++ ms) : ∀ m ∈ ms, m.topic? ≠ some t := by
  intro m hm ht
  have kept : e'.told t = e.told t := h.told_eq ha
  unfold told at kept
  rw [hms, List.filter_append, List.append_right_eq_self, List.filter_eq_nil_iff] at kept
  exact kept m hm (by simp [ht])

theorem Only.listening_eq (h : Only as e e') (ha : .listening ∉ as) :
    e'.state.listening = e.state.listening :=
  h.same .listening ha

theorem Only.documentListeners_eq (h : Only as e e') (ha : .page .documentListeners ∉ as) :
    e'.page.document.documentListeners = e.page.document.documentListeners :=
  h.same (.page .documentListeners) ha

theorem Only.elementListeners_eq (h : Only as e e') (ha : .page .elementListeners ∉ as) :
    e'.page.document.elementListeners = e.page.document.elementListeners :=
  h.same (.page .elementListeners) ha

theorem Only.stylesheets_eq {id : String} (h : Only as e e') (ha : .page (.stylesheet id) ∉ as) :
    e'.page.document.stylesheets.filter (·.1 == id) =
      e.page.document.stylesheets.filter (·.1 == id) :=
  h.same (.page (.stylesheet id)) ha

theorem Only.bodyCursor_eq (h : Only as e e') (ha : .page .bodyCursor ∉ as) :
    e'.page.document.bodyCursor = e.page.document.bodyCursor :=
  h.same (.page .bodyCursor) ha

theorem Only.attribute?_eq {name : String} (h : Only as e e') (ha : .page (.attr name) ∉ as)
    (n : NodeId) : e'.page.document.attribute? n name = e.page.document.attribute? n name :=
  h.same (.page (.attr name)) ha n

theorem Only.sameTree (h : Only as e e') (ha : .page .tree ∉ as) :
    e.page.document.SameTree e'.page.document :=
  h.same (.page .tree) ha

end Only

/-! ## The page, the log and the host -/

/-- A change of the document alone. -/
theorem only_of_document {e : HeadlessEditor} {page : Headless} (ps : List Part)
    (ho : page.outbox = e.page.outbox) (h : Document.Only ps e.page.document page.document) :
    Only (ps.map .page) e { e with page } := by
  have hsent : page.outbox.sent = e.page.outbox.sent := congrArg Outbox.sent ho
  refine ⟨rfl, ?_, h.elements, ?_⟩
  · show e.page.outbox.sent <+: page.outbox.sent
    exact hsent ▸ List.prefix_refl page.outbox.sent
  · intro a ha
    cases a with
    | page p => exact h.same p fun hp => ha (List.mem_map_of_mem hp)
    | channel => exact congrArg Outbox.failing ho
    | outbox => exact hsent
    | told t => exact congrArg (List.filter _) hsent
    | _ => rfl

theorem onDocument_only (ps : List Part) (e : HeadlessEditor) (f : Document → Document)
    (h : Document.Only ps e.page.document (f e.page.document)) :
    Only (ps.map .page) e { e with page := e.page.onDocument f } :=
  only_of_document ps rfl h

theorem log_only (e : HeadlessEditor) (level : LogLevel) (message : String)
    (fields : List (String × String)) : Only [] e (e.log level message fields) :=
  only_of_document [] rfl (.refl [] _)

/-- A change of the document that may fail. -/
theorem tryPage_only (ps : List Part) (e : HeadlessEditor) (f : Document → Except PageError Document)
    (failure : String) (fields : List (String × String))
    (h : ∀ d, f e.page.document = .ok d → Document.Only ps e.page.document d) :
    Only (ps.map .page) e (e.tryPage (fun page => page.tryDocument f) failure fields) := by
  unfold tryPage Headless.tryDocument
  cases hf : f e.page.document with
  | ok d =>
    simp only [hf, Except.map]
    exact only_of_document ps rfl (h d hf)
  | error fault =>
    simp only [hf, Except.map]
    exact (log_only e _ _ _).mono (List.nil_subset _)

theorem tryPage_of_ok {e : HeadlessEditor} {change : Headless → Except PageError Headless}
    {page : Headless} (h : change e.page = .ok page) (failure : String)
    (fields : List (String × String)) : e.tryPage change failure fields = { e with page } := by
  simp only [tryPage, h]

theorem tryDocument_of_ok {page : Headless} {f : Document → Except PageError Document} {d : Document}
    (h : f page.document = .ok d) : page.tryDocument f = .ok { page with document := d } := by
  simp only [Headless.tryDocument, h]
  rfl

theorem setAttribute_only (e : HeadlessEditor) (n : NodeId) (name value failure : String) :
    Only [.page (.attr name)] e (e.setAttribute n name value failure) :=
  tryPage_only [.attr name] e (fun d => d.setAttribute n name value) _ _ fun _ h =>
    Document.setAttribute_only h

theorem removeAttribute_only (e : HeadlessEditor) (n : NodeId) (name : String) :
    Only [.page (.attr name)] e (e.removeAttribute n name) :=
  onDocument_only [.attr name] e (fun d => d.removeAttribute n name)
    (Document.removeAttribute_only _ n name)

theorem setBodyAttribute_only (e : HeadlessEditor) (name : String) (value : Option String) :
    Only [.page (.attr name)] e (e.setBodyAttribute name value) :=
  onDocument_only [.attr name] e (fun d => d.setBodyAttribute name value)
    (Document.setBodyAttribute_only _ name value)

theorem setBodyCursor_only (e : HeadlessEditor) (cursor : Option String) :
    Only [.page .bodyCursor] e (e.setBodyCursor cursor) :=
  onDocument_only [.bodyCursor] e (fun d => { d with bodyCursor := cursor })
    (Document.bodyCursor_only _ cursor)

theorem removeStylesheet_only (e : HeadlessEditor) (id : String) :
    Only [.page (.stylesheet id)] e (e.removeStylesheet id) :=
  onDocument_only [.stylesheet id] e (fun d => d.removeStylesheet id)
    (Document.removeStylesheet_only _ id)

theorem injectStylesheet_only (e : HeadlessEditor) (id css : String) :
    Only [.page (.stylesheet id)] e (e.injectStylesheet id css) := by
  refine onDocument_only [.stylesheet id] e (fun d => (d.removeStylesheet id).injectStylesheet id css) ?_
  exact (Document.removeStylesheet_only _ id).andThen (Document.injectStylesheet_only _ id css)

/-- What is told is sent after what was sent before, unless nothing can be sent. -/
theorem tell_eq (e : HeadlessEditor) (n : Notice) :
    e.tell n =
      if e.page.outbox.failing then
        e.log .error "Failed to post message" [("kind", n.kind), ("error", PostError.noParent.message)]
      else
        { e with page.outbox.sent := e.page.outbox.sent ++ [.ofNotice n e.config.editorTag] } := by
  unfold tell
  rw [show Page.post e.page (.ofNotice n e.config.editorTag) =
    e.page.post (.ofNotice n e.config.editorTag) from rfl]
  unfold Headless.post
  by_cases h : e.page.outbox.failing = true
  · simp [h]
  · simp [h]

@[simp] theorem tell_state (e : HeadlessEditor) (n : Notice) : (e.tell n).state = e.state := by
  rw [tell_eq]
  split <;> rfl

theorem tell_sent {e : HeadlessEditor} (h : e.page.outbox.failing = false) (n : Notice) :
    (e.tell n).page.outbox.sent = e.page.outbox.sent ++ [.ofNotice n e.config.editorTag] := by
  rw [tell_eq, if_neg (by simp [h])]

/-- What is told is the last message about its topic. -/
theorem told_tell {e : HeadlessEditor} (h : e.page.outbox.failing = false) (n : Notice) :
    (e.tell n).told n.topic = e.told n.topic ++ [.ofNotice n e.config.editorTag] := by
  unfold told
  rw [tell_sent h, List.filter_append]
  simp [Envelope.topic?_ofNotice]

/-- Telling reaches the messages about the notice's topic. -/
theorem tell_only (e : HeadlessEditor) (t : Topic) {n : Notice} (h : n.topic = t) :
    Only [.outbox, .told t] e (e.tell n) := by
  subst h
  rw [tell_eq]
  split
  · exact (log_only e _ _ _).mono (List.nil_subset _)
  · refine ⟨rfl, List.prefix_append _ _, fun _ h => h, ?_⟩
    intro a ha
    cases a with
    | page p => exact Part.Same.refl p _
    | outbox => exact absurd (by simp) ha
    | told t =>
      have hne : n.topic ≠ t := fun h => ha (by simp [h])
      show (e.page.outbox.sent ++ [_]).filter _ = _
      simp [Envelope.topic?_ofNotice, hne, told]
    | _ => rfl

/-- A fold of changes that each reach these aspects at most. -/
theorem foldl_only {α : Type} {as : List Aspect} {f : HeadlessEditor → α → HeadlessEditor}
    (h : ∀ e a, Only as e (f e a)) (xs : List α) (e : HeadlessEditor) : Only as e (xs.foldl f e) := by
  induction xs generalizing e with
  | nil => exact .refl _ e
  | cons x xs ih => exact ((h e x).trans (ih (f e x))).mono (by simp)

/-- A fold of changes of the page that each reach these parts at most. -/
theorem foldl_page_only {α : Type} {ps : List Part} {f : Headless → α → Headless}
    (h : ∀ page a, (f page a).outbox = page.outbox ∧
      Document.Only ps page.document (f page a).document) (xs : List α) (e : HeadlessEditor) :
    Only (ps.map .page) e { e with page := xs.foldl f e.page } := by
  -- the induction is on the changes, for any page, and `e` comes back at the end
  have folded : ∀ page : Headless, (xs.foldl f page).outbox = page.outbox ∧
      Document.Only ps page.document (xs.foldl f page).document := by
    induction xs with
    | nil => exact fun page => ⟨rfl, .refl _ _⟩
    | cons x xs ih =>
      intro page
      obtain ⟨ho, hd⟩ := ih (f page x)
      exact ⟨ho.trans (h page x).1, (h page x).2.andThen hd⟩
  obtain ⟨ho, hd⟩ := folded e.page
  exact only_of_document ps ho hd

/-! ## The state -/

/-- A change of the state reaches the fields that it does not leave as they are. -/
theorem state_only {as : List Aspect} (e : HeadlessEditor) (state : EditorState NodeId)
    (hm : .mode ∉ as → state.mode = e.state.mode)
    (hl : .listening ∉ as → state.listening = e.state.listening)
    (hr : .ready ∉ as → state.ready = e.state.ready) (hh : .hover ∉ as → state.hover = e.state.hover)
    (hs : .selection ∉ as → state.selection = e.state.selection)
    (he : .session ∉ as → state.session = e.state.session) : Only as e { e with state } := by
  refine ⟨rfl, List.prefix_refl _, fun _ h => h, ?_⟩
  intro a ha
  cases a with
  | page p => exact Part.Same.refl p _
  | mode => exact hm ha
  | listening => exact hl ha
  | ready => exact hr ha
  | hover => exact hh ha
  | selection => exact hs ha
  | session => exact he ha
  | channel => rfl
  | outbox => rfl
  | told t => rfl

theorem mode_only (e : HeadlessEditor) (mode : EditMode) :
    Only [.mode] e { e with state := { e.state with mode } } := by
  apply state_only <;> simp

theorem listening_only (e : HeadlessEditor) (listening : Bool) :
    Only [.listening] e { e with state := { e.state with listening } } := by
  apply state_only <;> simp

theorem ready_only (e : HeadlessEditor) (ready : Bool) :
    Only [.ready] e { e with state := { e.state with ready } } := by
  apply state_only <;> simp

theorem hover_only (e : HeadlessEditor) (hover : Option NodeId) :
    Only [.hover] e { e with state := { e.state with hover } } := by
  apply state_only <;> simp

theorem selection_only (e : HeadlessEditor) (selection : Option (Selection NodeId)) :
    Only [.selection] e { e with state := { e.state with selection } } := by
  apply state_only <;> simp

theorem session_only (e : HeadlessEditor) (session : Option (Session NodeId)) :
    Only [.session] e { e with state := { e.state with session } } := by
  apply state_only <;> simp

/-- What is remembered about elements shows in no aspect. -/
theorem names_only (e : HeadlessEditor) (names : NameCache NodeId) : Only [] e { e with names } := by
  refine ⟨rfl, List.prefix_refl _, fun _ h => h, ?_⟩
  intro a _
  cases a with
  | page p => exact Part.Same.refl p _
  | _ => rfl

end Editor

end InPlace

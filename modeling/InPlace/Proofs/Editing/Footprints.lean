import InPlace.Proofs.Editing.Aspects

/-!
# Footprints

Which aspects hovering, selecting, editing and changes of mode reach, in one statement for each function of
the editor, named for it (`clearHover_only`, `endEdit_only`). Whoever needs to know that a function leaves
something alone asks this statement and does not open the function.

Main statements: `contentChanged_only`, `endEdit_only`, `beginEdit_cases`, `setMode_cases` and
`setMode_induction`.
-/

namespace InPlace.Editor

open Headless (Document Part)

/-! ## Elements -/

theorem metadata_only (e : HeadlessEditor) (n : NodeId) : Only [] e (e.metadata n).2 := by
  unfold metadata
  dsimp only
  split
  · exact (log_only e _ _ _).trans (names_only _ _)
  · exact names_only e _

theorem describe_only (e : HeadlessEditor) (n : NodeId) (detail : Bool) :
    Only [] e (e.describe n detail).2 :=
  metadata_only e n

theorem identity_metadata (e : HeadlessEditor) (n : NodeId) :
    (e.metadata n).1.identity = (e.names.naming e.page n).identity :=
  rfl

theorem identity_describe (e : HeadlessEditor) (n : NodeId) (detail : Bool) :
    (e.describe n detail).1.identity = (e.names.naming e.page n).identity :=
  rfl

theorem tellAbout_only (e : HeadlessEditor) (n : NodeId) (detail : Bool) (t : Topic)
    (notice : Descriptor → Notice) (h : ∀ d, (notice d).topic = t) :
    Only [.outbox, .told t] e (e.tellAbout n detail notice) :=
  (describe_only e n detail).trans (tell_only _ t (h _))

theorem sent_tellAbout {e : HeadlessEditor} (hf : e.page.outbox.failing = false) (n : NodeId)
    (detail : Bool) (notice : Descriptor → Notice) :
    (e.tellAbout n detail notice).page.outbox.sent = e.page.outbox.sent ++
      [.ofNotice (notice (e.describe n detail).1) e.config.editorTag] := by
  have described := describe_only e n detail
  have sent := tell_sent ((described.failing_eq (by decide)).trans hf)
    (notice (e.describe n detail).1)
  rw [described.sent_eq (by decide), described.config] at sent
  exact sent

theorem dropLostHover_only (e : HeadlessEditor) : Only [.hover] e e.dropLostHover := by
  unfold dropLostHover
  split
  · exact .refl _ e
  · exact hover_only e none

/-- What the host is told of the elements that there are to edit. -/
def readiness (e : HeadlessEditor) : Readiness :=
  ⟨e.page.document.identified.length, e.page.document.location, e.page.clock⟩

/-- The editor that knows that the host knows, before it tells the host. -/
def readied (e : HeadlessEditor) : HeadlessEditor :=
  log { e with state := { e.state with ready := true } } .debug "Agent ready"
    [("count", toString e.page.document.identified.length)]

theorem readied_only (e : HeadlessEditor) : Only [.ready] e e.readied :=
  (ready_only e true).trans (log_only _ _ _ _)

/-- The host is told of the elements once, and only if there are any. -/
theorem announce_cases (e : HeadlessEditor) :
    (e.state.ready = true ∧ e.announce = e) ∨
      (e.page.document.identified = [] ∧ e.announce = e.log .trace "No identified elements yet" []) ∨
      (e.state.ready = false ∧ e.page.document.identified ≠ [] ∧
        e.announce = e.readied.tell (.ready e.readiness)) := by
  unfold announce
  by_cases hr : e.state.ready = true
  · rw [if_pos hr]
    exact .inl ⟨hr, rfl⟩
  · rw [if_neg hr]
    cases h : e.page.document.identified with
    | nil =>
      refine .inr (.inl ⟨rfl, ?_⟩)
      rw [show Page.identified e.page = [] from h]
      rfl
    | cons n ns =>
      refine .inr (.inr ⟨by simpa using hr, by simp, ?_⟩)
      unfold readied readiness
      rw [show Page.identified e.page = n :: ns from h, h]
      rfl

/-- To announce the editor changes nothing but what was sent. -/
theorem announce_only (e : HeadlessEditor) :
    Only [.ready, .outbox, .told .ready] e e.announce := by
  rcases announce_cases e with ⟨-, h⟩ | ⟨-, h⟩ | ⟨-, -, h⟩
  · rw [h]
    exact .refl _ e
  · rw [h]
    exact (log_only e _ _ _).mono (List.nil_subset _)
  · rw [h]
    exact (readied_only e).trans (tell_only _ .ready rfl)

/-- The editor that holds on to nothing that has left the page. -/
def pruned (e : HeadlessEditor) : HeadlessEditor :=
  dropLostHover { e with names := e.names.prune (Page.identified e.page) }

theorem contentChanged_eq (e : HeadlessEditor) : e.contentChanged = e.pruned.announce :=
  rfl

theorem page_pruned (e : HeadlessEditor) : e.pruned.page = e.page := by
  unfold pruned dropLostHover
  split <;> rfl

theorem pruned_only (e : HeadlessEditor) : Only [.hover] e e.pruned :=
  (names_only e _).trans (dropLostHover_only _)

theorem contentChanged_only (e : HeadlessEditor) :
    Only [.hover, .ready, .outbox, .told .ready] e e.contentChanged :=
  (pruned_only e).trans (announce_only _)

/-! ## Hovering and selecting -/

/-- The aspects that hovering reaches. -/
abbrev hovering : List Aspect :=
  [.hover, .page (.attr Overlay.hoveredAttribute), .page (.attr Overlay.fullWidthAttribute), .outbox,
    .told .hover]

/-- The aspects that selecting reaches. -/
abbrev selecting : List Aspect :=
  [.selection, .page (.attr Overlay.selectedAttribute), .page (.attr "style")]

/-- The editor with its hover and the marks of a hovered element taken away. -/
def unhover (e : HeadlessEditor) (n : NodeId) : HeadlessEditor :=
  let e := { e with state := { e.state with hover := none } }
  (e.removeAttribute n Overlay.hoveredAttribute).removeAttribute n Overlay.fullWidthAttribute

theorem unhover_only (e : HeadlessEditor) (n : NodeId) :
    Only [.hover, .page (.attr Overlay.hoveredAttribute), .page (.attr Overlay.fullWidthAttribute)] e
      (e.unhover n) :=
  ((hover_only e none).trans (removeAttribute_only _ n Overlay.hoveredAttribute)).trans
    (removeAttribute_only _ n Overlay.fullWidthAttribute)

/-- There is no hover to be given up, or its marks go and the host may be told. -/
theorem clearHover_cases (e : HeadlessEditor) (notify : Bool) :
    (e.state.hover = none ∧ e.clearHover notify = e) ∨
      ∃ n, e.clearHover notify = e.unhover n ∨
        e.clearHover notify = (e.unhover n).tell (.hoverChanged none) := by
  unfold clearHover
  cases h : e.state.hover with
  | none => exact .inl ⟨rfl, rfl⟩
  | some n =>
    refine .inr ⟨n, ?_⟩
    cases notify with
    | false => exact .inl rfl
    | true => exact .inr rfl

/-- To give the hover up touches only what belongs to it. -/
theorem clearHover_only (e : HeadlessEditor) (notify : Bool) : Only hovering e (e.clearHover notify) := by
  rcases clearHover_cases e notify with ⟨-, h⟩ | ⟨n, h | h⟩
  · rw [h]
    exact .refl _ e
  · rw [h]
    exact (unhover_only e n).mono (by decide)
  · rw [h]
    exact (unhover_only e n).trans (tell_only _ .hover rfl)

/-- After that no element is hovered. -/
theorem hover_clearHover (e : HeadlessEditor) (notify : Bool) :
    (e.clearHover notify).state.hover = none := by
  rcases clearHover_cases e notify with ⟨hn, h⟩ | ⟨n, h | h⟩
  · rw [h, hn]
  · rw [h]
    rfl
  · rw [h, tell_state]
    rfl

theorem markHovered_only (e : HeadlessEditor) (n : NodeId) :
    Only [.page (.attr Overlay.hoveredAttribute), .page (.attr Overlay.fullWidthAttribute)] e
      (e.markHovered n) := by
  unfold markHovered
  dsimp only
  split
  · exact (setAttribute_only e n _ _ _).trans (setAttribute_only _ n _ _ _)
  · exact (setAttribute_only e n _ _ _).trans (removeAttribute_only _ n _)

theorem hoverElement_only (e : HeadlessEditor) (n : NodeId) : Only hovering e (e.hoverElement n) := by
  unfold hoverElement
  exact (((clearHover_only e false).trans (markHovered_only _ n)).trans ((hover_only _ (some n)).trans
    (tellAbout_only _ n false .hover (fun d => .hoverChanged (some d)) fun _ => rfl))).mono (by decide)

/-- To release the selection touches only what belongs to it. -/
theorem releaseSelection_only (e : HeadlessEditor) : Only selecting e e.releaseSelection := by
  unfold releaseSelection
  split
  · exact .refl _ e
  · have unmarked := fun n => (selection_only e none).trans
      (removeAttribute_only _ n Overlay.selectedAttribute)
    dsimp only
    split
    · exact (unmarked _).trans (setAttribute_only _ _ _ _ _)
    · exact (unmarked _).trans (removeAttribute_only _ _ _)

theorem selection_releaseSelection (e : HeadlessEditor) :
    e.releaseSelection.state.selection = none := by
  unfold releaseSelection
  split
  · assumption
  · dsimp only
    split
    · exact (setAttribute_only _ _ _ _ _).selection_eq (by decide)
    · exact (removeAttribute_only _ _ _).selection_eq (by decide)

theorem selected?_releaseSelection (e : HeadlessEditor) :
    e.releaseSelection.state.selected? = none :=
  congrArg (Option.map Selection.element) (selection_releaseSelection e)

theorem select_only (e : HeadlessEditor) (n : NodeId) : Only selecting e (e.select n) := by
  unfold select
  refine ((releaseSelection_only e).trans ((setAttribute_only _ n _ _ _).trans
    (selection_only _ (some ⟨n, _⟩)))).mono ?_
  simp

theorem selected?_select (e : HeadlessEditor) (n : NodeId) :
    (e.select n).state.selected? = some n :=
  rfl

/-! ## Editing a text -/

/-- The marks of an edited element and the listeners to it. -/
abbrev editMarks : List Aspect :=
  [.page (.attr Overlay.editingAttribute), .page (.attr Overlay.editableAttribute),
    .page .elementListeners]

theorem listenTo_only (e : HeadlessEditor) (n : NodeId) :
    Only [.page .elementListeners] e (e.listenTo n) :=
  foldl_only (fun e l => tryPage_only [.elementListeners] e (fun d => d.listenTo n l) _ _ fun _ h =>
    Document.listenTo_only h) _ e

theorem unlistenTo_only (e : HeadlessEditor) (n : NodeId) :
    Only [.page .elementListeners] e (e.unlistenTo n) :=
  foldl_page_only (f := fun page l => Page.unlistenTo page n l)
    (fun page l => ⟨rfl, Document.unlistenTo_only page.document n l⟩) _ e

/-- The aspects that the end of an edit reaches, its text apart. -/
abbrev ending : List Aspect :=
  .session :: .outbox :: .told .editEnded :: editMarks

/-- The aspects that the begin of an edit reaches. -/
abbrev beginning : List Aspect :=
  .session :: .outbox :: .told .editStarted :: .told .editor :: editMarks

/-- The session is over and its element has the text that stays. -/
def settleText (e : HeadlessEditor) (s : Session NodeId) (commit : Bool) : HeadlessEditor :=
  let e := { e with state := { e.state with session := none } }
  if commit then e else { e with page := Page.setTextContent e.page s.element s.openingText }

/-- An edited element loses its marks and listeners. -/
def unmarkEdited (e : HeadlessEditor) (n : NodeId) : HeadlessEditor :=
  ((e.removeAttribute n Overlay.editableAttribute).removeAttribute n
    Overlay.editingAttribute).unlistenTo n

/-- The host is told what has become of an edit. -/
def reportEdit (e : HeadlessEditor) (o : EditOutcome) : HeadlessEditor :=
  (e.log .debug "Inline edit ended" [("changed", toString o.changed)]).tell (.editEnded o)

theorem endEdit_of_none {e : HeadlessEditor} (h : e.state.session = none) (commit : Bool) :
    e.endEdit commit = e := by
  unfold endEdit
  rw [h]

/-- An edit ends in three parts: the text is settled, the marks go and the host is told. -/
theorem endEdit_of_some {e : HeadlessEditor} {s : Session NodeId} (h : e.state.session = some s)
    (commit : Bool) :
    e.endEdit commit = ((e.settleText s commit).unmarkEdited s.element).reportEdit
      (s.outcome (e.page.document.textContent s.element) commit) := by
  unfold endEdit
  rw [h]
  rfl

theorem settleText_true_only (e : HeadlessEditor) (s : Session NodeId) :
    Only [.session] e (e.settleText s true) :=
  session_only e none

/-- To settle a text touches the tree and the session alone. -/
theorem settleText_only (e : HeadlessEditor) (s : Session NodeId) (commit : Bool) :
    Only [.session, .page .tree] e (e.settleText s commit) := by
  cases commit with
  | true => exact (settleText_true_only e s).mono (by decide)
  | false =>
    exact (session_only e none).trans (onDocument_only [.tree] _
      (fun d => d.setTextContent s.element s.openingText) (Document.setTextContent_only _ _ _))

theorem unmarkEdited_only (e : HeadlessEditor) (n : NodeId) :
    Only editMarks e (e.unmarkEdited n) :=
  (((removeAttribute_only e _ _).trans (removeAttribute_only _ _ _)).trans
    (unlistenTo_only _ _)).mono (by decide)

theorem reportEdit_only (e : HeadlessEditor) (s : Session NodeId) (text : String) (commit : Bool) :
    Only [.outbox, .told .editEnded] e (e.reportEdit (s.outcome text commit)) :=
  (log_only e _ _ _).trans
    (tell_only _ .editEnded (Notice.topic_editEnded_outcome s text commit))

/-- The end of an edit is one message. -/
theorem sent_endEdit {e : HeadlessEditor} {s : Session NodeId} (h : e.state.session = some s)
    (hf : e.page.outbox.failing = false) (commit : Bool) :
    (e.endEdit commit).page.outbox.sent = e.page.outbox.sent ++
      [.ofNotice (.editEnded (s.outcome (e.page.document.textContent s.element) commit))
        e.config.editorTag] := by
  let o := s.outcome (e.page.document.textContent s.element) commit
  have settled := (settleText_only e s commit).trans (unmarkEdited_only _ s.element)
  have logged := settled.trans (log_only ((e.settleText s commit).unmarkEdited s.element) .debug
    "Inline edit ended" [("changed", toString o.changed)])
  have sent := tell_sent ((logged.failing_eq (by decide)).trans hf) (.editEnded o)
  rw [logged.sent_eq (by decide), logged.config] at sent
  rw [endEdit_of_some h]
  exact sent

/-- To end an edit touches the tree and what belongs to an edit. -/
theorem endEdit_only (e : HeadlessEditor) (commit : Bool) :
    Only (.page .tree :: ending) e (e.endEdit commit) := by
  cases h : e.state.session with
  | none =>
    rw [endEdit_of_none h]
    exact .refl _ e
  | some s =>
    rw [endEdit_of_some h]
    exact (((settleText_only e s commit).trans (unmarkEdited_only _ _)).trans
      (reportEdit_only _ s _ commit)).mono (by decide)

/-- An edit that is committed leaves the tree and its texts alone. -/
theorem endEdit_true_only (e : HeadlessEditor) : Only ending e (e.endEdit true) := by
  cases h : e.state.session with
  | none =>
    rw [endEdit_of_none h]
    exact .refl _ e
  | some s =>
    rw [endEdit_of_some h]
    exact (((settleText_true_only e s).trans (unmarkEdited_only _ _)).trans
      (reportEdit_only _ s _ true)).mono (by decide)

/-- After an edit has ended there is none. -/
theorem session_endEdit (e : HeadlessEditor) (commit : Bool) :
    (e.endEdit commit).state.session = none := by
  cases h : e.state.session with
  | none => rw [endEdit_of_none h, h]
  | some s =>
    have ended := (unmarkEdited_only (e.settleText s commit) s.element).trans
      (reportEdit_only _ s (e.page.document.textContent s.element) commit)
    rw [endEdit_of_some h]
    refine (ended.session_eq (by simp)).trans ?_
    cases commit <;> rfl

theorem editing?_endEdit (e : HeadlessEditor) (commit : Bool) :
    (e.endEdit commit).state.editing? = none :=
  congrArg (Option.map Session.element) (session_endEdit e commit)

/-- An element is marked by two attributes, and nothing is sent. -/
theorem markEdited_eq_ok {page page' : Headless} {n : NodeId} (h : markEdited page n = .ok page') :
    page'.outbox = page.outbox ∧
      ∃ d, page.document.setAttribute n Overlay.editingAttribute "true" = .ok d ∧
        d.setAttribute n Overlay.editableAttribute "true" = .ok page'.document := by
  have tried : ∀ (page page' : Headless) (name : String),
      Page.setAttribute page n name "true" = .ok page' → page'.outbox = page.outbox ∧
        page.document.setAttribute n name "true" = .ok page'.document := by
    intro page page' name h
    change (page.document.setAttribute n name "true").map _ = .ok page' at h
    cases hd : page.document.setAttribute n name "true" with
    | error fault => simp [hd, Except.map] at h
    | ok d =>
      rw [hd] at h
      cases Except.ok.inj h
      exact ⟨rfl, rfl⟩
  unfold markEdited at h
  split at h
  · rename_i marked hm
    obtain ⟨ho, hd⟩ := tried _ _ _ hm
    obtain ⟨ho', hd'⟩ := tried _ _ _ h
    exact ⟨ho'.trans ho, _, hd, hd'⟩
  · simp at h

/-- The editor that has tried to bring the focus to an element. -/
def focusOn (e : HeadlessEditor) (n : NodeId) : HeadlessEditor :=
  e.tryPage (fun page => Page.focus page n) "Failed to focus edited element" []

/-- The editor with an edit open that the host does not know of yet. -/
def opened (e : HeadlessEditor) (n : NodeId) (text : String) (i : Option Identity) :
    HeadlessEditor :=
  let e := ((e.focusOn n).listenTo n).log .debug "Inline edit started"
    [("identity", Text.Quoted.quote? (i.map Identity.raw))]
  { e with state := { e.state with session := some ⟨n, text, i⟩ } }

theorem openEdit_eq (e : HeadlessEditor) (n : NodeId) (text : String) (i : Option Identity) :
    e.openEdit n text i =
      ((e.opened n text i).tellAbout n false .editStarted).tellAbout n true .openEditor := by
  unfold openEdit opened focusOn
  rfl

theorem session_opened (e : HeadlessEditor) (n : NodeId) (text : String) (i : Option Identity) :
    (e.opened n text i).state.session = some ⟨n, text, i⟩ :=
  rfl

theorem focusOn_only (e : HeadlessEditor) (n : NodeId) : Only [] e (e.focusOn n) :=
  tryPage_only [] e (fun d => d.focus n) _ _ fun _ h => Document.focus_only h

/-- What comes after an element is listened to is the session. -/
theorem opened_of_listenTo_only (e : HeadlessEditor) (n : NodeId) (text : String)
    (i : Option Identity) : Only [.session] ((e.focusOn n).listenTo n) (e.opened n text i) :=
  (log_only ((e.focusOn n).listenTo n) .debug "Inline edit started"
    [("identity", Text.Quoted.quote? (i.map Identity.raw))]).trans
      (session_only _ (some ⟨n, text, i⟩))

theorem opened_only (e : HeadlessEditor) (n : NodeId) (text : String) (i : Option Identity) :
    Only [.page .elementListeners, .session] e (e.opened n text i) :=
  ((focusOn_only e n).trans (listenTo_only _ n)).trans (opened_of_listenTo_only e n text i)

/-- What the host is told of an edit that begins. -/
theorem tellOpened_only (e : HeadlessEditor) (n : NodeId) :
    Only [.outbox, .told .editStarted, .told .editor] e
      ((e.tellAbout n false .editStarted).tellAbout n true .openEditor) :=
  ((tellAbout_only e n false .editStarted .editStarted fun _ => rfl).trans
    (tellAbout_only _ n true .editor .openEditor fun _ => rfl)).mono (by decide)

/-- The begin of an edit is two messages, the second of which brings up the editor's popover. -/
theorem sent_openEdit {e : HeadlessEditor} (hf : e.page.outbox.failing = false) (n : NodeId)
    (text : String) (i : Option Identity) : ∃ d p,
      d.identity = ((e.opened n text i).names.naming (e.opened n text i).page n).identity ∧
      p.topic? = some .editor ∧ (e.openEdit n text i).page.outbox.sent =
        e.page.outbox.sent ++ [.ofNotice (.editStarted d) e.config.editorTag, p] := by
  have opened := opened_only e n text i
  have hf' := (opened.failing_eq (by decide)).trans hf
  have first := sent_tellAbout hf' n false .editStarted
  have told := tellAbout_only (e.opened n text i) n false .editStarted .editStarted fun _ => rfl
  have second := sent_tellAbout ((told.failing_eq (by decide)).trans hf') n true .openEditor
  rw [first, opened.sent_eq (by decide), opened.config, List.append_assoc] at second
  rw [openEdit_eq]
  exact ⟨((e.opened n text i).describe n false).1, _, identity_describe _ n false,
    Envelope.topic?_ofNotice _ _, second⟩

theorem openEdit_only (e : HeadlessEditor) (n : NodeId) (text : String) (i : Option Identity) :
    Only [.page .elementListeners, .session, .outbox, .told .editStarted, .told .editor] e
      (e.openEdit n text i) := by
  rw [openEdit_eq]
  exact (opened_only e n text i).trans (tellOpened_only _ n)

theorem session_openEdit (e : HeadlessEditor) (n : NodeId) (text : String) (i : Option Identity) :
    (e.openEdit n text i).state.session = some ⟨n, text, i⟩ := by
  rw [openEdit_eq]
  exact ((tellOpened_only _ n).session_eq (by decide)).trans (session_opened e n text i)

theorem editing?_openEdit (e : HeadlessEditor) (n : NodeId) (text : String) (i : Option Identity) :
    (e.openEdit n text i).state.editing? = some n :=
  congrArg (Option.map Session.element) (session_openEdit e n text i)

/-- The editor that has marked an element as edited, in the page that it has then. -/
def marked (e : HeadlessEditor) (n : NodeId) (page : Headless) : HeadlessEditor :=
  { (e.metadata n).2 with page }

/-- The editor that could not mark an element as edited. -/
def unmarked (e : HeadlessEditor) (n : NodeId) (fault : PageError) : HeadlessEditor :=
  (((e.metadata n).2.log .warn "Failed to make element editable"
    [("error", fault.message)]).removeAttribute n Overlay.editingAttribute).removeAttribute n
      Overlay.editableAttribute

/-- An edit begins with the marks on its element, or it fails and leaves no mark. -/
theorem beginEdit_cases (e : HeadlessEditor) (n : NodeId) :
    (∃ page, markEdited (e.metadata n).2.page n = .ok page ∧
      e.beginEdit n = (e.marked n page).openEdit n (e.page.document.textContent n)
        (e.metadata n).1.identity) ∨
    ∃ fault, e.beginEdit n = e.unmarked n fault := by
  unfold beginEdit
  dsimp only
  cases h : markEdited (e.metadata n).2.page n with
  | ok page => exact .inl ⟨page, rfl, rfl⟩
  | error fault => exact .inr ⟨fault, rfl⟩

theorem marked_only {e : HeadlessEditor} {n : NodeId} {page : Headless}
    (h : markEdited (e.metadata n).2.page n = .ok page) :
    Only [.page (.attr Overlay.editingAttribute), .page (.attr Overlay.editableAttribute)] e
      (e.marked n page) := by
  obtain ⟨ho, d, h1, h2⟩ := markEdited_eq_ok h
  exact (metadata_only e n).trans (only_of_document
    [.attr Overlay.editingAttribute, .attr Overlay.editableAttribute] ho
    ((Document.setAttribute_only h1).trans (Document.setAttribute_only h2)))

/-- What is marked as edited is an element. -/
theorem element?_marked {e : HeadlessEditor} {n : NodeId} {page : Headless}
    (h : markEdited (e.metadata n).2.page n = .ok page) :
    ((e.marked n page).page.document.element? n).isSome := by
  obtain ⟨ho, d, h1, h2⟩ := markEdited_eq_ok h
  obtain ⟨el, hel, -⟩ := Document.ifElement_eq_ok h1
  have before : ((e.metadata n).2.page.document.element? n).isSome := by
    rw [hel]
    rfl
  exact ((Document.setAttribute_only h1).trans (Document.setAttribute_only h2)).elements n before

theorem unmarked_only (e : HeadlessEditor) (n : NodeId) (fault : PageError) :
    Only [.page (.attr Overlay.editingAttribute), .page (.attr Overlay.editableAttribute)] e
      (e.unmarked n fault) :=
  ((metadata_only e n).trans (log_only _ _ _ _)).trans
    ((removeAttribute_only _ n Overlay.editingAttribute).trans (removeAttribute_only _ n _))

/-- To begin an edit touches what belongs to an edit. -/
theorem beginEdit_only (e : HeadlessEditor) (n : NodeId) : Only beginning e (e.beginEdit n) := by
  rcases beginEdit_cases e n with ⟨page, h, heq⟩ | ⟨fault, heq⟩
  · rw [heq]
    exact ((marked_only h).trans (openEdit_only _ n _ _)).mono (by decide)
  · rw [heq]
    exact (unmarked_only e n fault).mono (by decide)

/-- Where nothing was edited, the element is edited afterwards or nothing is. -/
theorem session_beginEdit {e : HeadlessEditor} (h : e.state.session = none) (n : NodeId) :
    (e.beginEdit n).state.session = none ∨ (e.beginEdit n).state.session =
      some ⟨n, e.page.document.textContent n, (e.metadata n).1.identity⟩ := by
  rcases beginEdit_cases e n with ⟨page, -, heq⟩ | ⟨fault, heq⟩
  · rw [heq]
    exact .inr (session_openEdit _ n _ _)
  · rw [heq]
    exact .inl (((unmarked_only e n fault).session_eq (by decide)).trans h)

/-- To start an edit touches what belongs to the one before, and to the new one. -/
theorem startEdit_only (e : HeadlessEditor) (n : NodeId) :
    Only (.page .tree :: ending ++ beginning) e (e.startEdit n) := by
  unfold startEdit
  split
  · exact .refl _ e
  · exact (endEdit_only e false).trans (beginEdit_only _ n)

/-- Where nothing is edited, the begin of an edit leaves the tree and its texts alone. -/
theorem startEdit_of_none {e : HeadlessEditor} (h : e.state.session = none) (n : NodeId) :
    e.startEdit n = e.beginEdit n := by
  rw [startEdit, if_neg (by simp [EditorState.editing?, h]), endEdit_of_none h]

/-! ## Modes -/

theorem listen_only (e : HeadlessEditor) :
    Only [.page .documentListeners, .listening] e e.listen := by
  unfold listen
  split
  · exact .refl _ e
  · have heard := foldl_only (f := fun e l => e.tryPage (fun page => Page.listen page l)
      "Failed to add listener" [("event", l.name)]) (fun e l =>
        onDocument_only [.documentListeners] e (fun d => d.listen l) (Document.listen_only _ l))
      DocumentEvent.all e
    exact heard.trans (listening_only _ true)

theorem unlisten_only (e : HeadlessEditor) :
    Only [.page .documentListeners, .listening] e e.unlisten := by
  unfold unlisten
  split
  · have unheard := foldl_page_only (f := fun page l => Page.unlisten page l)
      (fun page l => ⟨rfl, Document.unlisten_only page.document l⟩) DocumentEvent.all e
    exact unheard.trans (listening_only _ false)
  · exact .refl _ e

theorem enter_only (e : HeadlessEditor) (m : EditMode) :
    Only [.mode, .outbox, .told (.mode m)] e (e.enter m) :=
  (mode_only e m).trans (tell_only _ (.mode m) rfl)

theorem mode_enter (e : HeadlessEditor) (m : EditMode) : (e.enter m).state.mode = m := by
  unfold enter
  rw [tell_state]

/-- What a page is fitted out with while the editor is active. -/
abbrev fittings : List Aspect :=
  [.listening, .page .documentListeners, .page .bodyCursor, .page (.stylesheet Overlay.stylesId),
    .page (.stylesheet Overlay.scrollId)]

/-- The editor in a page that is fitted out for editing. -/
def fitOut (e : HeadlessEditor) : HeadlessEditor :=
  let e := (e.injectStylesheet Overlay.stylesId Overlay.styles).listen
  let e := (e.setBodyCursor (some e.config.cursor)).setBodyAttribute Overlay.savingAttribute none
  e.injectStylesheet Overlay.scrollId Overlay.scrollStyles

/-- The editor in a page whose events it no longer hears. -/
def hush (e : HeadlessEditor) : HeadlessEditor :=
  (e.unlisten.setBodyCursor none).setBodyAttribute Overlay.savingAttribute none

/-- The editor in a page without its style sheets. -/
def strip (e : HeadlessEditor) : HeadlessEditor :=
  (e.removeStylesheet Overlay.stylesId).removeStylesheet Overlay.scrollId

theorem enable_eq (e : HeadlessEditor) : e.enable = e.fitOut.enter .enabled :=
  rfl

theorem disable_eq (e : HeadlessEditor) :
    e.disable = ((e.endEdit false).hush.releaseSelection.clearHover false).strip.enter .disabled :=
  rfl

/-- To fit the page out touches style sheets, listeners and the attributes of the body. -/
theorem fitOut_only (e : HeadlessEditor) :
    Only (.page (.attr Overlay.savingAttribute) :: fittings) e e.fitOut := by
  have styled := injectStylesheet_only e Overlay.stylesId Overlay.styles
  have heard := styled.trans (listen_only _)
  have pointed := heard.trans (setBodyCursor_only _
    (some (e.injectStylesheet Overlay.stylesId Overlay.styles).listen.config.cursor))
  have shown := pointed.trans (setBodyAttribute_only _ Overlay.savingAttribute none)
  have scrolled := shown.trans (injectStylesheet_only _ Overlay.scrollId Overlay.scrollStyles)
  exact scrolled.mono (by decide)

theorem hush_only (e : HeadlessEditor) :
    Only [.page .documentListeners, .listening, .page .bodyCursor,
      .page (.attr Overlay.savingAttribute)] e e.hush :=
  ((unlisten_only e).trans (setBodyCursor_only _ none)).trans
    (setBodyAttribute_only _ Overlay.savingAttribute none)

theorem strip_only (e : HeadlessEditor) :
    Only [.page (.stylesheet Overlay.stylesId), .page (.stylesheet Overlay.scrollId)] e e.strip :=
  (removeStylesheet_only e Overlay.stylesId).trans (removeStylesheet_only _ Overlay.scrollId)

theorem enable_only (e : HeadlessEditor) :
    Only (.mode :: .outbox :: .told (.mode .enabled) :: .page (.attr Overlay.savingAttribute) ::
      fittings) e e.enable :=
  ((fitOut_only e).trans (enter_only _ .enabled)).mono (by decide)

/-- To begin to save touches edit, selection, hover and mode. -/
theorem enterSaving_only (e : HeadlessEditor) :
    Only (.page .tree :: .page (.attr Overlay.savingAttribute) :: .mode ::
      (ending ++ selecting ++ hovering)) e e.enterSaving := by
  have held := (setBodyAttribute_only e Overlay.savingAttribute (some "true")).trans
    (endEdit_only _ false)
  have released := (held.trans (releaseSelection_only _)).trans (clearHover_only _ false)
  exact (released.trans (mode_only _ .saving)).mono (by decide)

theorem leaveSaving_only (e : HeadlessEditor) :
    Only [.page (.attr Overlay.savingAttribute), .mode, .outbox, .told (.mode .enabled)] e
      e.leaveSaving :=
  (setBodyAttribute_only e Overlay.savingAttribute none).trans (enter_only _ .enabled)

/-- To be disabled touches all that editing does. -/
theorem disable_only (e : HeadlessEditor) :
    Only (.page .tree :: .mode :: .told (.mode .disabled) :: .page (.attr Overlay.savingAttribute) ::
      (fittings ++ ending ++ selecting ++ hovering)) e e.disable := by
  have hushed := (endEdit_only e false).trans (hush_only _)
  have released := (hushed.trans (releaseSelection_only _)).trans (clearHover_only _ false)
  have stripped := released.trans (strip_only _)
  rw [disable_eq]
  exact (stripped.trans (enter_only _ .disabled)).mono (by decide)

/-- A change of mode goes one of four ways or is none, and is logged. -/
theorem setMode_cases (e : HeadlessEditor) (m : EditMode) :
    ∃ e' level message fields, (e.setMode m).1 = e'.log level message fields ∧
      ((e.state.mode = .disabled ∧ m = .enabled ∧ e' = e.enable) ∨
        (e.state.mode = .saving ∧ m = .enabled ∧ e' = e.leaveSaving) ∨
        (e.state.mode = .enabled ∧ m = .saving ∧ e' = e.enterSaving) ∨
        (e.state.mode ≠ .disabled ∧ m = .disabled ∧ e' = e.disable) ∨
        ((e.state.mode = m ∨ e.state.mode = .disabled ∧ m = .saving) ∧ e' = e)) := by
  unfold setMode
  -- nine pairs of modes, of which four change nothing
  cases hm : e.state.mode <;> cases m <;>
    simp only [canFollow, reduceCtorEq, if_true, if_false, Bool.false_eq_true] <;>
    exact ⟨_, _, _, _, rfl, by simp⟩

/-- What a predicate on editors needs to be kept by every change of mode. -/
theorem setMode_induction {P : HeadlessEditor → Prop} {e : HeadlessEditor} (m : EditMode) (h : P e)
    (hlog : ∀ e level message fields, P e → P (e.log level message fields))
    (henable : e.state.mode = .disabled → P e.enable)
    (hleave : e.state.mode = .saving → P e.leaveSaving)
    (hsave : e.state.mode = .enabled → P e.enterSaving)
    (hdisable : e.state.mode ≠ .disabled → P e.disable) : P (e.setMode m).1 := by
  obtain ⟨e', level, message, fields, heq, hcases⟩ := setMode_cases e m
  rw [heq]
  refine hlog _ _ _ _ ?_
  rcases hcases with ⟨hm, -, rfl⟩ | ⟨hm, -, rfl⟩ | ⟨hm, -, rfl⟩ | ⟨hm, -, rfl⟩ | ⟨-, rfl⟩
  · exact henable hm
  · exact hleave hm
  · exact hsave hm
  · exact hdisable hm
  · exact h

end InPlace.Editor

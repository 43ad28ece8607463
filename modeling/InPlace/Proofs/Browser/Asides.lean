import InPlace.Proofs.Browser.Holdings

/-!
# What an editor does aside

Most of what an editor does has nothing to do with what it holds: it says something, notes a name, marks what is hovered
or changes a style. None of this takes the editor's marks into the page or out of it.

Main statements: `aside_tellAbout`, `aside_contentChanged`, `aside_updateText` and `aside_focus`.
-/

namespace InPlace.Browser

open Document

/-- The editor does something that has nothing to do with what it holds. -/
structure Aside (C : Matter → Prop) (e e' : Editor Browser NodeId) : Prop where
  page : Meanwhile C e.page e'.page
  holding : e'.state.holding = e.state.holding

section

variable {C : Matter → Prop} {b p : Browser} {e e' e'' : Editor Browser NodeId} {n : NodeId} {w : Wiring}
  {deal : Dispatcher}

theorem Aside.refl (e : Editor Browser NodeId) : Aside C e e :=
  ⟨.refl e.page, rfl⟩

theorem Aside.trans (h : Aside C e e') (h' : Aside C e' e'') : Aside C e e'' :=
  ⟨h.page.trans h'.page, h'.holding.trans h.holding⟩

theorem aside_hover (e : Editor Browser NodeId) (hover : Option NodeId) :
    Aside C e { e with state := { e.state with hover := hover } } :=
  ⟨.refl e.page, rfl⟩

theorem aside_foldl {α : Type} {f : Editor Browser NodeId → α → Editor Browser NodeId} (hf : ∀ e a, Aside C e (f e a))
    (as : List α) (e : Editor Browser NodeId) : Aside C e (as.foldl f e) :=
  List.foldlRecOn (motive := Aside C e) as f (.refl e) fun _ h a _ => h.trans (hf _ a)

theorem aside_log (e : Editor Browser NodeId) (level : LogLevel) (message : String) (fields : List (String × String)) :
    letI := page w deal
    Aside C e (e.log level message fields) :=
  ⟨.of_undisturbed (undisturbed_log _ _), rfl⟩

/-- To tell the host something is an aside. -/
theorem aside_tell (e : Editor Browser NodeId) (n : Notice) : letI := page w deal
    Aside C e (e.tell n) := by
  let := page w deal
  obtain ⟨p, hp, said⟩ := tell_eq w deal e n
  rw [hp]
  exact ⟨.of_undisturbed said, rfl⟩

/-- A change of the page that is an aside is one when it is tried as well. -/
theorem aside_tryPage {change : Browser → Except PageError Browser} (h : ∀ p, change e.page = .ok p → Meanwhile C e.page p)
    (failure : String) (fields : List (String × String)) : letI := page w deal
    Aside C e (e.tryPage change failure fields) := by
  let := page w deal
  cases hp : change e.page with
  | ok p =>
    rw [tryPage_ok hp]
    exact ⟨h p hp, rfl⟩
  | error fault =>
    rw [tryPage_error hp]
    exact ⟨.of_undisturbed (undisturbed_log _ _), rfl⟩

theorem aside_removeAttribute (e : Editor Browser NodeId) (n : NodeId) (name : String) (hname : name ≠ "id") :
    letI := page w deal
    Aside C e (e.removeAttribute n name) :=
  ⟨Meanwhile.onDocument (f := fun d => d.setAttribute n name none)
    (addsNothing_dropAttribute _ _ hname), rfl⟩

/-- An attribute that is none of the editor's own is set aside. -/
theorem aside_setAttribute (e : Editor Browser NodeId) (n : NodeId) (name : String)
    (hname : name ∉ ownAttributes ∧ name ≠ "id") (value failure : String) : letI := page w deal
    Aside C e (e.setAttribute n name value failure) := by
  let := page w deal
  refine aside_tryPage (fun p hp => ?_) failure []
  cases hp
  exact .onDocument (addsNothing_putAttribute _ _ hname value)

/-- What is known of an element is looked up aside. -/
theorem aside_metadata (e : Editor Browser NodeId) (n : NodeId) : letI := page w deal
    Aside C e (e.metadata n).2 := by
  let := page w deal
  have noticed : Aside C e (if e.names.isStale e.page n then
      e.log .trace "Stale element metadata" [("key", toString (e.names.number n))] else e) := by
    split
    · exact aside_log e _ _ _
    · exact .refl e
  exact ⟨noticed.page, noticed.holding⟩

theorem aside_tellAbout (e : Editor Browser NodeId) (n : NodeId) (detail : Bool) (notice : Descriptor → Notice) :
    letI := page w deal
    Aside C e (e.tellAbout n detail notice) := by
  let := page w deal
  exact (aside_metadata e n).trans (aside_tell _ _)

theorem aside_contentChanged (e : Editor Browser NodeId) : letI := page w deal
    Aside C e e.contentChanged := by
  let := page w deal
  obtain ⟨p, names, hover, ready, he, said, -⟩ := contentChanged_eq w deal e
  rw [he]
  exact ⟨.of_undisturbed said, rfl⟩

/-- The hover is given up aside: only its own marks go. -/
theorem aside_clearHover (e : Editor Browser NodeId) (notify : Bool) : letI := page w deal
    Aside C e (e.clearHover notify) := by
  let := page w deal
  unfold Editor.clearHover
  split
  · exact .refl e
  · rename_i n hn
    let e₁ : Editor Browser NodeId := { e with state := { e.state with hover := none } }
    have cleared : Aside C e ((e₁.removeAttribute n Overlay.hoveredAttribute).removeAttribute n
        Overlay.fullWidthAttribute) :=
      ((aside_hover e none).trans (aside_removeAttribute e₁ n Overlay.hoveredAttribute (by decide))).trans
        (aside_removeAttribute _ n Overlay.fullWidthAttribute (by decide))
    dsimp only
    split
    · exact cleared.trans (aside_tell _ _)
    · exact cleared

/-- An element is hovered aside: its marks are none of those that are guarded. -/
theorem aside_hoverElement (e : Editor Browser NodeId) (n : NodeId) : letI := page w deal
    Aside C e (e.hoverElement n) := by
  let := page w deal
  let e₁ := e.clearHover false
  have hovered : Aside C e₁ (e₁.setAttribute n Overlay.hoveredAttribute "true" "Failed to mark hovered element") :=
    aside_setAttribute e₁ n _ (by decide) _ _
  have marked : Aside C e₁ (e₁.markHovered n) := by
    unfold Editor.markHovered
    dsimp only
    split
    · exact hovered.trans (aside_setAttribute _ n _ (by decide) _ _)
    · exact hovered.trans (aside_removeAttribute _ n _ (by decide))
  let e₂ := e₁.markHovered n
  let e₃ : Editor Browser NodeId := { e₂ with state := { e₂.state with hover := some n } }
  have kept : Aside C e e₃ := ((aside_clearHover e false).trans marked).trans (aside_hover e₂ _)
  unfold Editor.hoverElement
  exact kept.trans (aside_tellAbout e₃ n false _)

theorem aside_pointerOver (e : Editor Browser NodeId) (target : NodeId) : letI := page w deal
    Aside C e (e.pointerOver target) := by
  let := page w deal
  unfold Editor.pointerOver
  split
  · exact .refl e
  · split
    · exact aside_clearHover e true
    · rename_i n hn
      split
      · exact .refl e
      · dsimp only
        split
        · exact (aside_metadata e n).trans (aside_clearHover _ true)
        · exact (aside_metadata e n).trans (aside_hoverElement _ n)

theorem aside_input (e : Editor Browser NodeId) (n : NodeId) : letI := page w deal
    Aside C e (e.input n) := by
  let := page w deal
  unfold Editor.input
  split
  · exact .refl e
  · split
    · exact aside_tell e _
    · exact .refl e

/-- A change of the document that may fail. -/
theorem meanwhile_tryDocument {f : Document → Except PageError Document} (hp : b.tryDocument f = .ok p)
    (hf : ∀ d, f b.document = .ok d → AddsNothing C b.document d) : Meanwhile C b p := by
  unfold Browser.tryDocument at hp
  cases hd : f b.document with
  | error fault =>
    rw [hd] at hp
    cases hp
  | ok d =>
    rw [hd] at hp
    cases hp
    exact Meanwhile.onDocument (f := fun _ => d) (hf d hd)

/-- Styles change aside. -/
theorem aside_updateStyles (e : Editor Browser NodeId) (n : NodeId) (styles : List (String × String)) :
    letI := page w deal
    Aside C e (e.updateStyles n styles) := by
  let := page w deal
  refine aside_foldl (fun e s => aside_tryPage (fun p hp => meanwhile_tryDocument hp fun d hd => ?_) _ _) styles e
  unfold Document.setStyle at hd
  split at hd
  · cases hd
    exact addsNothing_putDeclaration _ _ _ _
  · cases hd

/-- Class names that change bring no mark and no style sheet. -/
theorem addsNothing_changeClasses {d d' : Document} {name : String} {f : List String → List String}
    (h : d.changeClasses n name f = .ok d') : AddsNothing C d d' := by
  unfold Document.changeClasses at h
  split at h
  · cases h
  · cases h
    exact addsNothing_setClasses _ _ _

theorem aside_updateClasses (e : Editor Browser NodeId) (n : NodeId) (changes : ClassChanges) :
    letI := page w deal
    Aside C e (e.updateClasses n changes) := by
  let := page w deal
  have removed : Aside C e (changes.remove.foldl (fun e c => e.tryPage (fun page => Page.removeClass page n c)
      "Failed to remove class" [("class", c)]) e) :=
    aside_foldl (fun e c => aside_tryPage (fun p hp => meanwhile_tryDocument hp fun d hd =>
      addsNothing_changeClasses hd) _ _) changes.remove e
  exact removed.trans (aside_foldl (fun e c => aside_tryPage (fun p hp => meanwhile_tryDocument hp fun d hd =>
    addsNothing_changeClasses hd) _ _) changes.add _)

/-- A text that is exchanged takes no element away that matters. -/
theorem aside_updateText (e : Editor Browser NodeId) (hd : e.page.document.Rooted) (hn : e.page.document.Fit C n)
    (text : String) : letI := page w deal
    Aside C e (e.updateText n text) := by
  obtain ⟨x, hx⟩ := Option.isSome_iff_exists.1 hn.element
  refine ⟨Meanwhile.onDocument (f := fun d => d.setTextContent n text)
    (addsNothing_setTextContent hd (lt_fresh_of_element? hx) text fun c => ⟨?_, ?_⟩), rfl⟩
  · rintro rfl
    rw [hd.element?_top] at hx
    cases hx
  · exact (isRoot_eq_false.1 (hn.inside c)).2

/-! ## The focus -/

/-- Where every editor is at work nothing comes of an event. -/
theorem Calm.meanwhile (hd : Calm deal) (hb : b.Busy) (e : Event) : Meanwhile C b (deal b e).1 := by
  obtain ⟨still, -⟩ := hd b e hb
  have listeners : (deal b e).1.listeners = b.listeners := still.listeners
  exact ⟨⟨still.window, still.observers, still.editors, still.handle, fun _ _ _ => by rw [listeners]⟩,
    fun _ hl => listeners ▸ hl, by rw [show (deal b e).1.document = b.document from still.document]; exact .refl _⟩

/-- While the focus moves nothing else happens, as the editor is at work. -/
theorem meanwhile_moveFocus (hd : Calm deal) (hb : b.Busy) (n : NodeId) : Meanwhile C b (b.moveFocus deal n) := by
  have entered : ∀ left, Meanwhile C b left →
      Meanwhile C b (deal (left.onDocument fun d => { d with focused := some n }) ⟨"focus", .node n, .plain⟩).1 := by
    intro left h
    have focused : Meanwhile C left (left.onDocument fun d => { d with focused := some n }) :=
      .onDocument (addsNothing_of_nodes rfl)
    have before := h.trans focused
    exact before.trans (hd.meanwhile (before.seats.busy hb) _)
  unfold Browser.moveFocus
  split
  · exact .refl b
  · cases b.document.focused with
    | some old => exact entered _ (hd.meanwhile hb _)
    | none => exact entered _ (.refl b)

theorem aside_focus (e : Editor Browser NodeId) (hd : Calm deal) (hb : e.page.Busy) (n : NodeId) : letI := page w deal
    Aside C e (e.tryPage (fun page => Page.focus page n) "Failed to focus edited element" []) := by
  let := page w deal
  refine aside_tryPage (fun p hp => ?_) _ _
  have hp : e.page.tryFocus deal n = .ok p := hp
  unfold Browser.tryFocus at hp
  split at hp
  · cases hp
    exact meanwhile_moveFocus hd hb n
  · cases hp

end

end InPlace.Browser

import InPlace.Proofs.Browser.ModeCycles
import InPlace.Proofs.Browser.Reserved

/-!
# What an editor holds in a page

An editor holds the element that it has selected, the one that it edits and the events that it listens to. A page is
tidy if all that the editor has put into it belongs to what it holds: then nothing of it is left when the editor lets go
of everything. What an editor holds is kept apart from its state here, since in the course of a reaction the one runs
ahead of the other: an element is marked before it counts as selected.

As in `AddsNothing`, what depends on the page leaving something to the editor is said on the terms of a condition `C`.

Main statements: `Tidy.meanwhile`, `Tidy.injectStylesheet` and `Tidy.disable`.
-/

namespace InPlace

/-- What an editor holds, and the mode it is in. -/
structure Holding where
  mode : EditMode
  selected : Option NodeId
  edited : Option NodeId
  listening : Bool

/-- What an editor holds by its own account. -/
def EditorState.holding (s : EditorState NodeId) : Holding :=
  ⟨s.mode, s.selected?, s.editing?, s.listening⟩

namespace Browser

open Document

/-- A listener is the page's own, or the editor has a reason for it. -/
inductive Expected (id : Nat) (h : Holding) : Listener → Prop where
  | hook {l : Listener} (k : Nat) (hl : l.callback = .hook k) : Expected id h l
  | messages : Expected id h (messageListener id)
  | loading : Expected id h (loadListener id)
  | document {l : Listener} (hh : h.listening = true) (hl : l ∈ documentListeners id) : Expected id h l
  | element {l : Listener} {n : NodeId} (hn : h.edited = some n) (hl : l ∈ elementListeners id n) : Expected id h l

/-- An element that may be selected and edited. Where these stay it is neither the root element nor the body. -/
structure Document.Fit (C : Matter → Prop) (d : Document) (n : NodeId) : Prop where
  element : (d.element? n).isSome
  inside : Placed C → d.isRoot n = false

/-- All that the editor has put into the page belongs to what it holds. -/
structure Tidy (C : Matter → Prop) (id : Nat) (b : Browser) (h : Holding) : Prop where
  rooted : b.document.Rooted
  listeners : ∀ l ∈ b.listeners, Expected id h l
  selected : ∀ n, h.selected = some n → b.document.Fit C n
  edited : ∀ n, h.edited = some n → b.document.Fit C n
  selectedMark : C (.mark Overlay.selectedAttribute) → ∀ n,
    b.document.attribute? n Overlay.selectedAttribute ≠ none → h.selected = some n
  editedMark : C (.mark Overlay.editingAttribute) → ∀ n,
    b.document.attribute? n Overlay.editingAttribute ≠ none → h.edited = some n
  savingMark : C (.mark Overlay.savingAttribute) → Placed C → ∀ n,
    b.document.attribute? n Overlay.savingAttribute ≠ none → b.document.body? = some n
  sheets : Placed C → ∀ sheet ∈ ownIds, ∀ n, b.document.Carries sheet n → b.document.isRoot n = false
  /-- A disabled editor holds nothing. -/
  free : h.mode = .disabled → h.selected = none ∧ h.edited = none ∧ h.listening = false
  /-- Nor has it put a style sheet into the page, as it has in another mode. -/
  bare : C .sheets → h.mode = .disabled → ∀ sheet ∈ ownIds, b.document.byId? sheet = none
  /-- Nor does the page show that it is being saved. -/
  unsaved : C (.mark Overlay.savingAttribute) → Placed C → h.mode = .disabled →
    ∀ n, b.document.attribute? n Overlay.savingAttribute = none

/-! ## Changes that the editor has no part in -/

/-- One browser has the window, the editors and the page's own listeners of another. -/
structure SameSeats (b b' : Browser) : Prop where
  window : b'.window = b.window
  observers : b'.observers = b.observers
  editors : b'.editors = b.editors
  handle : b'.handle = b.handle
  own : ∀ l k, l.callback = .hook k → (l ∈ b'.listeners ↔ l ∈ b.listeners)

/-- The page is changed, but not by what the editor takes hold of. -/
structure Meanwhile (C : Matter → Prop) (b b' : Browser) : Prop where
  seats : b.SameSeats b'
  listeners : ∀ l ∈ b'.listeners, l ∈ b.listeners
  document : AddsNothing C b.document b'.document

section

variable {C : Matter → Prop} {id : Nat} {b b' b'' : Browser} {h : Holding} {n m : NodeId} {d d' : Document}

theorem SameSeats.refl (b : Browser) : b.SameSeats b :=
  ⟨rfl, rfl, rfl, rfl, fun _ _ _ => .rfl⟩

theorem SameSeats.trans (h : b.SameSeats b') (h' : b'.SameSeats b'') : b.SameSeats b'' where
  window := h'.window.trans h.window
  observers := h'.observers.trans h.observers
  editors := h'.editors.trans h.editors
  handle := h'.handle.trans h.handle
  own l k hl := (h'.own l k hl).trans (h.own l k hl)

theorem Undisturbed.seats (h : b.Undisturbed b') : b.SameSeats b' :=
  ⟨h.window, h.observers, h.editors, h.handle, fun _ _ _ => by rw [h.listeners]⟩

theorem SameSeats.busy (h : b.SameSeats b') (hb : b.Busy) : b'.Busy :=
  fun id r => seat?_of_editors h.editors id ▸ hb id r

theorem Meanwhile.refl (b : Browser) : Meanwhile C b b :=
  ⟨.refl b, fun _ hl => hl, .refl b.document⟩

theorem Meanwhile.trans (h : Meanwhile C b b') (h' : Meanwhile C b' b'') : Meanwhile C b b'' :=
  ⟨h.seats.trans h'.seats, fun l hl => h.listeners l (h'.listeners l hl), h.document.trans h'.document⟩

theorem Meanwhile.of_undisturbed (h : b.Undisturbed b') : Meanwhile C b b' :=
  ⟨h.seats, fun _ hl => h.listeners ▸ hl, by rw [h.document]; exact .refl _⟩

theorem Meanwhile.onDocument {f : Document → Document} (h : AddsNothing C b.document (f b.document)) :
    Meanwhile C b (b.onDocument f) :=
  ⟨⟨rfl, rfl, rfl, rfl, fun _ _ _ => .rfl⟩, fun _ hl => hl, h⟩

theorem Document.KeepsPlaces.fit (h : KeepsPlaces C d d') (hd : d.Rooted) (hn : d.Fit C n) : d'.Fit C n :=
  ⟨h.elements n hn.element, fun c => (h.isRoot c hd n).trans (hn.inside c)⟩

theorem Document.AddsNothing.mark (h : AddsNothing C d d') {name : String} (hname : name ∈ ownAttributes)
    (c : C (.mark name)) (hn : d'.attribute? n name ≠ none) : d.attribute? n name ≠ none :=
  fun none => hn (h.marks name hname c n none)

/-- Whoever the page is changed by, it stays tidy as long as the editor's marks are left alone. -/
theorem Tidy.meanwhile (t : Tidy C id b h) (hb : Meanwhile C b b') : Tidy C id b' h where
  rooted := hb.document.rooted t.rooted
  listeners l hl := t.listeners l (hb.listeners l hl)
  selected n hn := hb.document.fit t.rooted (t.selected n hn)
  edited n hn := hb.document.fit t.rooted (t.edited n hn)
  selectedMark c n hn := t.selectedMark c n (hb.document.mark (by decide) c hn)
  editedMark c n hn := t.editedMark c n (hb.document.mark (by decide) c hn)
  savingMark c c' n hn :=
    (hb.document.body c' t.rooted).trans (t.savingMark c c' n (hb.document.mark (by decide) c hn))
  sheets c sheet hs n hn :=
    (hb.document.isRoot c t.rooted n).trans (t.sheets c sheet hs n (hb.document.carries c.sheets t.rooted sheet hs n hn))
  free := t.free
  bare c hm sheet hs := by
    rw [byId?_eq_none_iff]
    exact fun n hn => byId?_eq_none_iff.1 (t.bare c hm sheet hs) n (hb.document.carries c t.rooted sheet hs n hn)
  unsaved c c' hm n := hb.document.marks _ (by decide) c n (t.unsaved c c' hm n)

/-! ## Taking hold and letting go -/

/-- What is expected of an editor is expected of one that holds more. -/
theorem Expected.mono {h' : Holding} {l : Listener} (hl : Expected id h l)
    (hlisten : h.listening = true → h'.listening = true)
    (hedit : ∀ n, h.edited = some n → h'.edited = some n) : Expected id h' l := by
  cases hl with
  | hook k hl => exact .hook k hl
  | messages => exact .messages
  | loading => exact .loading
  | document hh hl => exact .document (hlisten hh) hl
  | element hn hl => exact .element (hedit _ hn) hl

/-- An editor that is active may take hold of an element, before it is marked. -/
theorem Tidy.take (t : Tidy C id b h) (hm : h.mode ≠ .disabled) (hs : h.selected = none) (hn : b.document.Fit C n) :
    Tidy C id b { h with selected := some n } :=
  { t with
    listeners := fun l hl => (t.listeners l hl).mono (fun hh => hh) fun _ hn => hn
    selected := fun _ hm => by
      cases hm
      exact hn
    selectedMark := fun c m hm => by
      have none := t.selectedMark c m hm
      rw [hs] at none
      cases none
    free := fun hd => absurd hd hm }

/-- An element that bears no mark any more need not be held. -/
theorem Tidy.drop (t : Tidy C id b h)
    (hn : C (.mark Overlay.selectedAttribute) → ∀ n, h.selected = some n →
      b.document.attribute? n Overlay.selectedAttribute = none) :
    Tidy C id b { h with selected := none } :=
  { t with
    listeners := fun l hl => (t.listeners l hl).mono (fun hh => hh) fun _ hn => hn
    selected := fun _ hm => nomatch hm
    selectedMark := fun c m hm => absurd (hn c m (t.selectedMark c m hm)) hm
    free := fun hd => ⟨rfl, (t.free hd).2⟩ }

/-- A tidy page may have an element edited. -/
theorem Tidy.takeEdit (t : Tidy C id b h) (hm : h.mode ≠ .disabled) (he : h.edited = none) (hn : b.document.Fit C n) :
    Tidy C id b { h with edited := some n } :=
  { t with
    listeners := fun l hl => (t.listeners l hl).mono (fun hh => hh) fun _ hm => by
      rw [he] at hm
      cases hm
    edited := fun _ hm => by
      cases hm
      exact hn
    editedMark := fun c m hm => by
      have none := t.editedMark c m hm
      rw [he] at none
      cases none
    free := fun hd => absurd hd hm }

/-- An element that bears no mark and has no listeners any more need not be held. -/
theorem Tidy.dropEdit (t : Tidy C id b h)
    (hn : C (.mark Overlay.editingAttribute) → ∀ n, h.edited = some n →
      b.document.attribute? n Overlay.editingAttribute = none)
    (hl : ∀ n, h.edited = some n → ∀ l ∈ elementListeners id n, l ∉ b.listeners) :
    Tidy C id b { h with edited := none } :=
  { t with
    listeners := fun l hin => by
      cases t.listeners l hin with
      | hook k hk => exact .hook k hk
      | messages => exact .messages
      | loading => exact .loading
      | document hh hd => exact .document hh hd
      | element hn he => exact absurd hin (hl _ hn l he)
    edited := fun _ hm => nomatch hm
    editedMark := fun c m hm => absurd (hn c m (t.editedMark c m hm)) hm
    free := fun hd => ⟨(t.free hd).1, rfl, (t.free hd).2.2⟩ }

/-- What the editor holds it may mark. -/
theorem Tidy.mark (t : Tidy C id b h) (name value : String) (hid : name ≠ "id")
    (hs : name = Overlay.selectedAttribute → h.selected = some n)
    (he : name = Overlay.editingAttribute → h.edited = some n) (hsaving : name ≠ Overlay.savingAttribute) :
    Tidy C id (b.onDocument fun d => d.setAttribute n name (some value)) h := by
  have places : KeepsPlaces C b.document (b.document.setAttribute n name (some value)) :=
    keepsPlaces_modifyElement _ _ fun _ => ⟨rfl, rfl⟩
  have old : ∀ {m other}, (name = other → m ≠ n) →
      (b.document.setAttribute n name (some value)).attribute? m other ≠ none → b.document.attribute? m other ≠ none := by
    intro m other hne hm
    rw [attribute?_setAttribute, if_neg fun same => hne same.2.1 same.1.symm] at hm
    exact hm
  exact
    { rooted := places.rooted t.rooted
      listeners := t.listeners
      selected := fun m hm => places.fit t.rooted (t.selected m hm)
      edited := fun m hm => places.fit t.rooted (t.edited m hm)
      selectedMark := fun c m hm => Classical.byContradiction fun other =>
        other (t.selectedMark c m (old (fun hname hmn => other (hmn ▸ hs hname)) hm))
      editedMark := fun c m hm => Classical.byContradiction fun other =>
        other (t.editedMark c m (old (fun hname hmn => other (hmn ▸ he hname)) hm))
      savingMark := fun c c' m hm =>
        (places.body c' t.rooted).trans (t.savingMark c c' m (old (fun hname => absurd hname hsaving) hm))
      sheets := fun c sheet hsheet m hm => (places.isRoot c t.rooted m).trans (t.sheets c sheet hsheet m
        (carries_modifyElement (fun e => by rw [Table.get?_put, if_neg hid]) hm))
      free := t.free
      bare := fun c hm sheet hsheet => by
        rw [byId?_eq_none_iff]
        exact fun m hin => byId?_eq_none_iff.1 (t.bare c hm sheet hsheet) m
          (carries_modifyElement (fun e => by rw [Table.get?_put, if_neg hid]) hin)
      unsaved := fun c c' hm m => Classical.byContradiction fun some =>
        old (fun hname => absurd hname hsaving) some (t.unsaved c c' hm m) }

/-! ## Listeners -/

/-- The editor may register what it has a reason for. -/
theorem Tidy.listen (t : Tidy C id b h) {l : Listener} (hl : Expected id h l) : Tidy C id (b.listen l) h := by
  have listed : ∀ x ∈ (b.listen l).listeners, Expected id h x := fun x hx =>
    (mem_listeners_listen.1 hx).elim (fun same => same ▸ hl) (t.listeners x)
  unfold Browser.listen at listed ⊢
  split
  · exact t
  · rename_i hnew
    rw [if_neg hnew] at listed
    exact { t with listeners := listed }

/-- A listener of the editor takes no seat. -/
theorem sameSeats_listen (b : Browser) {l : Listener} (hl : ∀ k, l.callback ≠ .hook k) : b.SameSeats (b.listen l) := by
  have own : ∀ x k, x.callback = .hook k → (x ∈ (b.listen l).listeners ↔ x ∈ b.listeners) := fun x k hx =>
    mem_listeners_listen.trans (or_iff_right fun same => hl k (same ▸ hx))
  unfold Browser.listen at own ⊢
  split
  · exact .refl b
  · rename_i hnew
    rw [if_neg hnew] at own
    exact ⟨rfl, rfl, rfl, rfl, own⟩

theorem Tidy.foldl_listen (t : Tidy C id b h) (ls : List Listener) (hl : ∀ l ∈ ls, Expected id h l) :
    Tidy C id (ls.foldl Browser.listen b) h :=
  List.foldlRecOn (motive := fun b => Tidy C id b h) ls _ t fun _ t l hin => t.listen (hl l hin)

theorem sameSeats_foldl_listen (b : Browser) {ls : List Listener} (hl : ∀ l ∈ ls, ∀ k, l.callback ≠ .hook k) :
    b.SameSeats (ls.foldl Browser.listen b) :=
  List.foldlRecOn (motive := b.SameSeats) ls _ (.refl b) fun b' h l hin => h.trans (sameSeats_listen b' (hl l hin))

/-- Listeners of the editor that are given up are gone. -/
theorem Meanwhile.foldl_unlisten (b : Browser) (ls : List Listener) (hl : ∀ l ∈ ls, ∀ k, l.callback ≠ .hook k) :
    Meanwhile C b (ls.foldl Browser.unlisten b) ∧ ∀ l ∈ ls, l ∉ (ls.foldl Browser.unlisten b).listeners := by
  obtain ⟨frame, document, listeners⟩ := Browser.foldl_unlisten ls b
  refine ⟨⟨⟨frame.window, frame.observers, frame.editors, frame.handle, fun x k hx => ?_⟩, fun x hx => ?_,
    by rw [document]; exact .refl _⟩, fun x hx hin => ?_⟩
  · rw [listeners, List.mem_filter]
    exact and_iff_left (decide_eq_true fun hin => hl x hin k hx)
  · rw [listeners] at hx
    exact (List.mem_filter.1 hx).1
  · rw [listeners] at hin
    exact of_decide_eq_true (List.mem_filter.1 hin).2 hx

theorem callback_of_mem_documentListeners {l : Listener} (hl : l ∈ documentListeners id) :
    l.callback = .documentEvents id := by
  obtain ⟨event, -, rfl⟩ := List.mem_map.1 hl
  rfl

theorem callback_of_mem_elementListeners {l : Listener} (hl : l ∈ elementListeners id n) :
    l.callback = .elementEvents id := by
  obtain ⟨event, -, rfl⟩ := List.mem_map.1 hl
  rfl

/-- What an editor listens with is none of the page's own hooks. -/
theorem ne_hook_of_mem_documentListeners {l : Listener} (hl : l ∈ documentListeners id) (k : Nat) :
    l.callback ≠ .hook k := by
  rw [callback_of_mem_documentListeners hl]
  nofun

theorem ne_hook_of_mem_elementListeners {l : Listener} (hl : l ∈ elementListeners id n) (k : Nat) :
    l.callback ≠ .hook k := by
  rw [callback_of_mem_elementListeners hl]
  nofun

/-! ## Modes -/

/-- An editor may leave the disabled mode at any time. -/
theorem Tidy.enable (t : Tidy C id b h) {m : EditMode} (hm : m ≠ .disabled) (listening : Bool)
    (hl : h.listening = true → listening = true) : Tidy C id b { h with mode := m, listening := listening } :=
  { t with
    listeners := fun l hin => (t.listeners l hin).mono hl fun _ hn => hn
    free := fun hd => absurd hd hm
    bare := fun _ hd => absurd hd hm
    unsaved := fun _ _ hd => absurd hd hm }

/-- The body may be given the mark of the saving mode. -/
theorem Tidy.setSaving (t : Tidy C id b h) (hm : h.mode ≠ .disabled) (value : Option String) :
    Tidy C id (b.onDocument fun d => d.setBodyAttribute Overlay.savingAttribute value) h := by
  have places : KeepsPlaces C b.document (b.document.setBodyAttribute Overlay.savingAttribute value) :=
    keepsPlaces_setBodyAttribute _ _ _
  have given := fun other n => attribute?_setBodyAttribute b.document Overlay.savingAttribute other value n
  exact
    { rooted := places.rooted t.rooted
      listeners := t.listeners
      selected := fun n hn => places.fit t.rooted (t.selected n hn)
      edited := fun n hn => places.fit t.rooted (t.edited n hn)
      selectedMark := fun c n hn => by
        refine t.selectedMark c n fun none => hn ?_
        rw [Browser.onDocument, given, if_neg fun same => absurd same.2 (by decide)]
        exact none
      editedMark := fun c n hn => by
        refine t.editedMark c n fun none => hn ?_
        rw [Browser.onDocument, given, if_neg fun same => absurd same.2 (by decide)]
        exact none
      savingMark := fun c c' n hn => by
        refine (places.body c' t.rooted).trans (Classical.byContradiction fun other => ?_)
        refine other (t.savingMark c c' n fun none => hn ?_)
        rw [Browser.onDocument, given, if_neg fun same => other same.1]
        exact none
      sheets := fun c sheet hs n hn =>
        (places.isRoot c t.rooted n).trans (t.sheets c sheet hs n (carries_setBodyAttribute (by decide) hn))
      free := t.free
      bare := fun _ hd => absurd hd hm
      unsaved := fun _ _ hd => absurd hd hm }

/-- A style sheet may be put into the page. -/
theorem Tidy.injectStylesheet (t : Tidy C id b h) (hm : h.mode ≠ .disabled) {sheet css : String}
    (hi : b.document.injectStylesheet sheet css = .ok d') : Tidy C id (b.onDocument fun _ => d') h := by
  have places : KeepsPlaces C b.document d' := keepsPlaces_injectStylesheet t.rooted hi
  -- only an id comes with a style sheet, and no mark
  have given : ∀ name, name ≠ "id" → ∀ n, d'.attribute? n name = b.document.attribute? n name :=
    fun _ hname n => attribute?_injectStylesheet t.rooted hi hname n
  exact
    { rooted := places.rooted t.rooted
      listeners := t.listeners
      selected := fun n hn => places.fit t.rooted (t.selected n hn)
      edited := fun n hn => places.fit t.rooted (t.edited n hn)
      selectedMark := fun c n hn => t.selectedMark c n (given Overlay.selectedAttribute (by decide) n ▸ hn)
      editedMark := fun c n hn => t.editedMark c n (given Overlay.editingAttribute (by decide) n ▸ hn)
      savingMark := fun c c' n hn => (places.body c' t.rooted).trans
        (t.savingMark c c' n (given Overlay.savingAttribute (by decide) n ▸ hn))
      sheets := fun c other hs n hn => (places.isRoot c t.rooted n).trans
        ((carries_injectStylesheet t.rooted hi hn).elim (t.sheets c other hs n) fun outside => outside)
      free := t.free
      bare := fun _ hd => absurd hd hm
      unsaved := fun _ _ hd => absurd hd hm }

/-- An editor that holds nothing, and of which nothing is left in the page, may be disabled. -/
theorem Tidy.disable (t : Tidy C id b h) (hs : h.selected = none) (he : h.edited = none)
    (hl : ∀ l ∈ documentListeners id, l ∉ b.listeners)
    (bare : ∀ sheet ∈ ownIds, b.document.byId? sheet = none)
    (unsaved : C (.mark Overlay.savingAttribute) → Placed C → ∀ n,
      b.document.attribute? n Overlay.savingAttribute = none) :
    Tidy C id b { h with mode := .disabled, listening := false } :=
  { t with
    listeners := fun l hin => by
      cases t.listeners l hin with
      | hook k hk => exact .hook k hk
      | messages => exact .messages
      | loading => exact .loading
      | document _ hd => exact absurd hin (hl l hd)
      | element hn he => exact .element hn he
    free := fun _ => ⟨hs, he, rfl⟩
    bare := fun _ _ => bare
    unsaved := fun c c' _ => unsaved c c' }

end

end Browser

end InPlace

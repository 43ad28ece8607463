import InPlace.Proofs.Editing.Documents
import InPlace.Proofs.Editing.Names
import InPlace.Proofs.Headless.Linked

/-!
# Nodes that the editor refers to

The editor holds on to nodes: one that is hovered, one that is selected, one that is edited, and those whose names it
remembers. The page may take each of them out of the document. When the editor is told that the page has changed it
lets go of a hovered node that is out of the document and of all names but those of the elements that it finds, and of
nothing else (`Settled`): what is selected or edited stays so, wherever it is.

That an element which is found is in the document needs the tree to be linked. The editor writes the tree in two ways
only, with a text in place of what is inside of a node and with a node that is taken out, so what these two keep, every
operation keeps (`TreeKept`). The text stands in a node that is selected or edited (`TreeKeptAt`).

Main statements: `TreeKept.operate` and `settled_run`.
-/

namespace InPlace

open Headless (Document PageEdit)

/-- What a predicate on documents needs so that every operation keeps it, if it is about their trees. -/
structure TreeKept (P : Document → Prop) : Prop where
  sameTree : ∀ {d d'}, d.SameTree d' → P d → P d'
  setTextContent : ∀ {d}, P d → ∀ n s, P (d.setTextContent n s)
  remove : ∀ {d d' n}, d.remove? n = some d' → P d → P d'

/-- The same of an editor that writes texts only where it holds nodes of some kind. -/
structure TreeKeptAt (Q : NodeId → Prop) (P : Document → Prop) : Prop where
  sameTree : ∀ {d d'}, d.SameTree d' → P d → P d'
  setTextContent : ∀ {d n}, Q n → P d → ∀ s, P (d.setTextContent n s)
  remove : ∀ {d d' n}, d.remove? n = some d' → P d → P d'

theorem linked_treeKept : TreeKept fun d => d.nodes.Linked where
  sameTree h := h.linked
  setTextContent h n s := Document.setTextContent_linked h n s
  remove h hd := Document.remove?_linked hd h

/-- The node that a step moves, if it does move one, is a node of the document. -/
def Step.MovesNode (d : Document) : Step → Prop
  | page x => x.MovesNode d
  | _ => True

namespace Editor

/-- Every node that a step of a run moves is a node of the document then. -/
def MovesNodes (e : HeadlessEditor) : List Step → Prop
  | [] => True
  | x :: xs => x.MovesNode e.page.document ∧ (e.step x).MovesNodes xs

/-! ## The tree under the editor -/

/-- What is selected or edited is of some kind. -/
structure HoldsOnly (Q : NodeId → Prop) (e : HeadlessEditor) : Prop where
  selected : ∀ n, e.state.selected? = some n → Q n
  edited : ∀ s, e.state.session = some s → Q s.element

end Editor

namespace TreeKeptAt

open Editor

variable {Q : NodeId → Prop} {P : Document → Prop} (k : TreeKeptAt Q P) {e e' : HeadlessEditor} {as : List Aspect}

include k

theorem of_only (h : Only as e e') (ha : .page .tree ∉ as) (hP : P e.page.document) :
    P e'.page.document :=
  k.sameTree (h.sameTree ha) hP

theorem endEdit (commit : Bool) (held : HoldsOnly Q e) (h : P e.page.document) :
    P (e.endEdit commit).page.document := by
  cases hs : e.state.session with
  | none =>
    rw [endEdit_of_none hs]
    exact h
  | some s =>
    have settled : P (e.settleText s commit).page.document := by
      cases commit with
      | true => exact h
      | false => exact k.setTextContent (held.edited s hs) h s.openingText
    rw [endEdit_of_some hs]
    exact k.of_only ((unmarkEdited_only _ _).trans (reportEdit_only _ s _ commit)) (by decide) settled

theorem setMode (m : EditMode) (held : HoldsOnly Q e) (h : P e.page.document) : P (e.setMode m).1.page.document := by
  refine setMode_induction (P := fun e => P e.page.document) m h ?_ ?_ ?_ ?_ ?_
  · exact fun e level message fields => k.of_only (log_only e level message fields) (by decide)
  · exact fun _ => k.of_only (enable_only e) (by decide) h
  · exact fun _ => k.of_only (leaveSaving_only e) (by decide) h
  · intro _
    have saving := k.of_only (setBodyAttribute_only e Overlay.savingAttribute (some "true")) (by decide) h
    have released := (releaseSelection_only ((e.setBodyAttribute Overlay.savingAttribute
      (some "true")).endEdit false)).trans (clearHover_only _ false)
    exact k.of_only (released.trans (mode_only _ .saving)) (by decide)
      (k.endEdit false ⟨held.selected, held.edited⟩ saving)
  · intro _
    have released := ((hush_only (e.endEdit false)).trans (releaseSelection_only _)).trans
      (clearHover_only _ false)
    rw [disable_eq]
    exact k.of_only ((released.trans (strip_only _)).trans (enter_only _ .disabled)) (by decide)
      (k.endEdit false held h)

theorem letGo (n : NodeId) (held : HoldsOnly Q e) (h : P e.page.document) : P (e.letGo n).page.document := by
  by_cases hn : e.state.editing? = some n
  · exact k.of_only (letGo_of_editing hn) (by decide) (k.endEdit false held h)
  · exact k.of_only (letGo_of_not_editing hn) (by decide) h

theorem deleteElement (n : NodeId) (held : HoldsOnly Q e) (h : P e.page.document) :
    P (e.deleteElement n).1.page.document := by
  have kept := k.letGo n held h
  rcases deleteElement_cases e n with heq | ⟨page, hp, heq⟩
  · rw [heq]
    exact kept
  · obtain ⟨-, hd⟩ := remove?_eq_some hp
    have unmarked := removeAttribute_only (log { e.letGo n with page } .debug "Deleted selected element" []) n
      Overlay.selectedAttribute
    rw [heq]
    -- the mark of the selection is taken away once the element is out of the page
    exact k.sameTree (unmarked.sameTree (by decide)) (k.remove hd kept)

/-- What the editor's writes keep of the document is kept by any command. -/
theorem handleCommand (c : Command) (held : HoldsOnly Q e) (h : P e.page.document) :
    P (e.handleCommand c).1.page.document := by
  have logged : e.state.selected? = none → ∀ level message fields,
      P (e.log level message fields).page.document := fun _ _ _ _ => h
  cases c with
  | setMode m => exact k.setMode m held h
  | updateText text =>
    exact withSelected_induction (P := fun e => P e.page.document) _ logged fun n hn =>
      k.setTextContent (held.selected n hn) h text
  | updateStyles styles =>
    exact withSelected_induction (P := fun e => P e.page.document) _ logged fun n _ =>
      k.of_only (updateStyles_only e n styles) (by decide) h
  | updateClasses changes =>
    exact withSelected_induction (P := fun e => P e.page.document) _ logged fun n _ =>
      k.of_only (updateClasses_only e n changes) (by decide) h
  | deleteElement =>
    exact withSelected_induction (P := fun e => P e.page.document) _ logged fun n _ =>
      k.deleteElement n held h
  | clearSelection =>
    exact k.of_only ((releaseSelection_only (e.endEdit false)).trans (tell_only _ .cleared rfl)) (by decide)
      (k.endEdit false held h)

/-- What the editor's writes keep of the document is kept by any event. -/
theorem handleEvent (ev : PageEvent NodeId) (held : HoldsOnly Q e) (h : P e.page.document) :
    P (e.handleEvent ev).1.page.document := by
  cases ev with
  | click target => exact k.of_only (click_only e target) (by decide) h
  | submit target => exact h
  | keyDown key => exact k.of_only (keyDown_only e key) (by decide) h
  | pointerOver target => exact k.of_only (pointerOver_only e target) (by decide) h
  | scroll => exact k.of_only (clearHover_only e true) (by decide) h
  | input element => exact k.of_only (input_only e element) (by decide) h
  | blur element =>
    rw [handleEvent_blur]
    split
    · exact k.endEdit true held h
    · exact h
  | editKeyDown element key =>
    rw [handleEvent_editKeyDown]
    split
    · exact k.endEdit false held h
    · exact h

theorem startEdit (n : NodeId) (held : HoldsOnly Q e) (h : P e.page.document) : P (e.startEdit n).page.document := by
  unfold Editor.startEdit
  split
  · exact h
  · exact k.of_only (beginEdit_only _ n) (by decide) (k.endEdit false held h)

/-- What the removal of nodes keeps, and texts in place of others at the nodes that the editor holds, every operation
keeps. -/
theorem operate (o : Operation) (held : HoldsOnly Q e) (h : P e.page.document) : P (e.operate o).page.document := by
  cases o with
  | contentChanged => exact k.of_only (contentChanged_only e) (by decide) h
  | receive data fromParent =>
    exact receive_induction (P := fun e => P e.page.document) data fromParent (fun _ _ _ => h)
      fun c => k.handleCommand c held h
  | command c => exact k.handleCommand c held h
  | setMode m => exact k.setMode m held h
  | event ev => exact k.handleEvent ev held h
  | startEdit n => exact k.startEdit n held h
  | endEdit commit => exact k.endEdit commit held h

end TreeKeptAt

/-- Where a text may stand in place of others at every node, it does not matter what the editor holds. -/
theorem TreeKept.at {P : Document → Prop} (k : TreeKept P) : TreeKeptAt (fun _ => True) P :=
  ⟨k.sameTree, fun _ h s => k.setTextContent h _ s, k.remove⟩

/-- What texts in place of others and the removal of nodes keep, every operation keeps. -/
theorem TreeKept.operate {P : Document → Prop} (k : TreeKept P) {e : HeadlessEditor} (o : Operation)
    (h : P e.page.document) : P (e.operate o).page.document :=
  k.at.operate o ⟨fun _ _ => trivial, fun _ _ => trivial⟩ h

namespace Editor

variable {e : HeadlessEditor}

/-- Parents and children agree after every step that moves nodes as they may be. -/
theorem linked_step {x : Step} (hx : x.MovesNode e.page.document) (h : e.page.document.nodes.Linked) :
    (e.step x).page.document.nodes.Linked := by
  cases x with
  | page x => exact PageEdit.apply_linked h hx
  | clock time => exact h
  | channel failing => exact h
  | operate o => exact linked_treeKept.operate o h

/-- A run keeps the tree linked, if the page moves only nodes that there are. -/
theorem linked_run {xs : List Step} (hxs : e.MovesNodes xs) (h : e.page.document.nodes.Linked) :
    (e.run xs).page.document.nodes.Linked := by
  induction xs generalizing e with
  | nil => exact h
  | cons x xs ih =>
    rw [run_cons]
    exact ih hxs.2 (linked_step hxs.1 h)

/-! ## The news of changed elements -/

/-- What the second editor, who has heard that the page has changed, still refers to of what the first did. -/
structure Settled (e e' : HeadlessEditor) : Prop where
  document : e'.page.document = e.page.document
  /-- A hovered node that is out of the document is not hovered any more. -/
  hover : ∀ n, e'.state.hover = some n ↔ e.state.hover = some n ∧ e.page.document.isConnected n = true
  /-- Only the names of elements that are found are remembered, and no others are. -/
  names : ∀ entry, entry ∈ e'.names.entries ↔
    entry ∈ e.names.entries ∧ entry.1 ∈ e.page.document.identified
  selection : e'.state.selection = e.state.selection
  session : e'.state.session = e.state.session

theorem document_contentChanged (e : HeadlessEditor) :
    e.contentChanged.page.document = e.page.document := by
  rw [contentChanged_eq, ← page_pruned e]
  rcases announce_cases e.pruned with ⟨-, heq⟩ | ⟨-, heq⟩ | ⟨-, -, heq⟩
  · rw [heq]
  · rw [heq]
    rfl
  · rw [heq, document_tell]
    rfl

/-- A hover is dropped exactly if the node is out of the document. -/
theorem dropLostHover_cases (e : HeadlessEditor) :
    ((∀ n, e.state.hover = some n → e.page.document.isConnected n = true) ∧ e.dropLostHover = e) ∨
      ∃ n, e.state.hover = some n ∧ e.page.document.isConnected n = false ∧
        e.dropLostHover = { e with state := { e.state with hover := none } } := by
  unfold dropLostHover
  split
  · rename_i h
    refine .inl ⟨fun n hn => ?_, rfl⟩
    rw [hn, Option.all_some] at h
    exact h
  · rename_i h
    cases hn : e.state.hover with
    | none => simp [hn] at h
    | some n =>
      rw [hn, Option.all_some] at h
      exact .inr ⟨n, rfl, eq_false_of_ne_true h, rfl⟩

/-- A hover is kept exactly if its element is in the document. -/
theorem hover_dropLostHover (e : HeadlessEditor) (n : NodeId) : e.dropLostHover.state.hover = some n ↔
    e.state.hover = some n ∧ e.page.document.isConnected n = true := by
  rcases dropLostHover_cases e with ⟨connected, heq⟩ | ⟨m, hm, lost, heq⟩
  · rw [heq]
    exact ⟨fun h => ⟨h, connected n h⟩, And.left⟩
  · rw [heq]
    refine ⟨fun h => by simp at h, ?_⟩
    rintro ⟨hn, connected⟩
    cases hm.symm.trans hn
    exact absurd (lost.symm.trans connected) Bool.false_ne_true

theorem names_pruned (e : HeadlessEditor) : e.pruned.names = e.names.prune e.page.document.identified := by
  unfold pruned dropLostHover
  split <;> rfl

/-- Entries are kept exactly for elements that live. -/
theorem mem_entries_prune (c : NameCache NodeId) (live : List NodeId) (entry : NodeId × Naming) :
    entry ∈ (c.prune live).entries ↔ entry ∈ c.entries ∧ entry.1 ∈ live := by
  have noted : (live.foldl NameCache.note c).entries = c.entries :=
    Forest.foldl_reading (r := NameCache.entries) NameCache.entries_note live c
  unfold NameCache.prune
  dsimp only
  rw [noted, List.mem_filter, List.contains_iff_mem]

/-- When the content has changed, hover and names are settled and all else stays. -/
theorem contentChanged_settled (e : HeadlessEditor) : Settled e e.contentChanged where
  document := document_contentChanged e
  hover n := by
    rw [contentChanged_eq, (announce_only e.pruned).hover_eq (by decide)]
    exact hover_dropLostHover { e with names := e.names.prune (Page.identified e.page) } n
  names entry := by
    rw [contentChanged_eq, names_announce, names_pruned]
    exact mem_entries_prune e.names _ entry
  selection := (contentChanged_only e).selection_eq (by decide)
  session := (contentChanged_only e).session_eq (by decide)

/-- In every run, after the news that the page has changed, a hovered node is in the document, and each name that is
remembered belongs to an element in the document with an identity. What was selected or edited still is, whether it is
in the document or not. -/
theorem settled_run {d : Document} (hd : d.nodes.Linked) (config : EditorConfig) (time : String)
    {xs : List Step} (hxs : (new d config time).MovesNodes xs) :
    let e := (new d config time).run xs
    let e' := (new d config time).run (xs ++ [.operate .contentChanged])
    Settled e e' ∧
      (∀ n, e'.state.hover = some n → e'.page.document.isConnected n = true) ∧
      (∀ entry ∈ e'.names.entries, e'.page.document.isConnected entry.1 = true ∧
        (e'.page.document.attribute? entry.1 identityAttribute).isSome) := by
  intro e e'
  have linked : e.page.document.nodes.Linked := linked_run hxs hd
  have settled : Settled e e' := by
    show Settled e ((new d config time).run (xs ++ [.operate .contentChanged]))
    rw [run_append]
    exact contentChanged_settled e
  refine ⟨settled, ?_, ?_⟩
  · intro n hn
    rw [settled.document]
    exact ((settled.hover n).1 hn).2
  · intro entry hentry
    have found := ((settled.names entry).1 hentry).2
    rw [settled.document]
    exact ⟨Document.isConnected_of_mem_identified linked found, Document.attribute?_of_mem_identified found⟩

/-- Two paragraphs are moved into a section, one of them is selected and the other one hovered; then the page takes the
section out. -/
theorem settled_run_section :
    let xs : List Step := [.page (.appendElement 0 "section"), .page (.appendIdentified 0 "p" "a.tsx:1:2"),
      .page (.appendIdentified 0 "p" "a.tsx:2:2"), .page (.appendChild 1 2), .page (.appendChild 1 3),
      .operate (.setMode .enabled), .operate (.event (.click 2)), .operate (.event (.pointerOver 3)),
      .page (.remove 1)]
    let e := (new .empty {} "").run xs
    let e' := (new .empty {} "").run (xs ++ [.operate .contentChanged])
    e.state.hover = some 3 ∧ e'.state.hover = none ∧ e.names.entries.map Prod.fst = [3, 2] ∧ e'.names.entries = [] ∧
      e'.state.selection = e.state.selection := by
  intro xs e e'
  have moved : (new .empty {} "").MovesNodes xs := by
    refine ⟨trivial, trivial, trivial, ?_, ?_, trivial, trivial, trivial, trivial, trivial⟩
    · show (_ : Option _).isSome = true
      decide +kernel
    · show (_ : Option _).isSome = true
      decide +kernel
  have settled : Settled e e' := (settled_run Document.empty_linked {} "" moved).1
  have hovered : e.state.hover = some 3 := by decide +kernel
  have remembered : e.names.entries.map Prod.fst = [3, 2] := by decide +kernel
  have outside : e.page.document.isConnected 3 = false := by decide +kernel
  have found : e.page.document.identified = [] := by decide +kernel
  refine ⟨hovered, ?_, remembered, ?_, settled.selection⟩
  · refine Option.eq_none_iff_forall_ne_some.2 fun n hn => ?_
    obtain ⟨hn, connected⟩ := (settled.hover n).1 hn
    cases hovered.symm.trans hn
    exact absurd (outside.symm.trans connected) (by decide)
  · refine List.eq_nil_iff_forall_not_mem.2 fun entry hentry => ?_
    have live := ((settled.names entry).1 hentry).2
    rw [found] at live
    exact List.not_mem_nil live

/-- An element that the page has taken out is still selected after the news of it, and a text that it has taken out is
still edited. -/
theorem unsettled_selection :
    let news : List Step := [.page (.remove 1), .operate .contentChanged]
    let e := (new .empty {} "").run ([.page (.appendIdentified 0 "div" "a.tsx:1:0"),
      .operate (.setMode .enabled), .operate (.event (.click 1))] ++ news)
    let e' := (new .empty {} "").run ([.page (.appendIdentified 0 "p" "a.tsx:1:0"),
      .page (.appendText 1 "Hello"), .operate (.setMode .enabled), .operate (.event (.click 1))] ++ news)
    (e.state.selected? = some 1 ∧ e.page.document.isConnected 1 = false) ∧
      e'.state.selected? = some 1 ∧ e'.state.editing? = some 1 ∧ e'.page.document.isConnected 1 = false := by
  decide +kernel

end Editor

end InPlace

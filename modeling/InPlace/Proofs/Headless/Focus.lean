import InPlace.Proofs.Headless.Trees
import InPlace.Proofs.Page.Moves

/-!
# Where the focus is

The focus can be put on a node of the document only, and a removal takes it away from all that has been removed. But a
node can leave the document in two other ways, and neither looks for the focus: with all else that was inside of an
element when a text is put in its place, and with an ancestor that is moved under a node that is not in the document
(`PageEdit.strands`). As long as no edit strands the focus it rests on a node of the document, and the first edit that
does leaves it on a node that is not (`focusRests_edited_iff`).

Main statements: `PageEdit.focusRests_apply_iff` and `Document.focusRests_edited_iff`.
-/

namespace InPlace.Headless

open Document (body)

namespace Document

variable {d d' : Document} {n m : NodeId}

/-- The focus, if there is one, is on a node of the document. -/
def FocusRests (d : Document) : Prop :=
  d.focused.all d.isConnected = true

instance (d : Document) : Decidable d.FocusRests :=
  inferInstanceAs (Decidable (_ = _))

theorem focusRests_iff : d.FocusRests ↔ ∀ n, d.focused = some n → d.isConnected n = true := by
  unfold FocusRests
  cases d.focused with
  | none => simp
  | some m => simp

end Document

namespace PageEdit

variable {x : PageEdit} {d d' : Document}

/-- Whether an edit takes a node out of the document that has the focus, and leaves it the focus. -/
def strands (d : Document) : PageEdit → Bool
  | setTextContent n _ => d.isConnected n && d.focused.any fun m => m != n && d.nodes.isWithin n m
  | appendChild parent child =>
    child != body && d.isConnected child && !d.isConnected parent && d.focused.any (d.nodes.isWithin child)
  | _ => false

/-! ## Edits that do not look for the focus -/

theorem focused_orSame {r : Except PageError Document} (h : ∀ d', r = .ok d' → d'.focused = d.focused) :
    (orSame d r).focused = d.focused := by
  cases r with
  | ok d' => exact h d' rfl
  | error fault => rfl

theorem focused_ifElement {n : NodeId} {f : Element → Document} (h : ∀ e, (f e).focused = d.focused) :
    (orSame d (d.ifElement n f)).focused = d.focused := by
  refine focused_orSame fun d' hd => ?_
  obtain ⟨e, -, rfl⟩ := Document.ifElement_eq_ok hd
  exact h e

/-- Only a removal takes the focus away, and only one edit gives it. -/
theorem focused_apply (hr : ∀ n, x ≠ remove n) (hf : ∀ n, x ≠ focus n) : (x.apply d).focused = d.focused := by
  cases x with
  | remove n => exact absurd rfl (hr n)
  | focus n => exact absurd rfl (hf n)
  | setTextContent n s =>
    show (d.setTextContent n s).focused = d.focused
    unfold Document.setTextContent
    cases s.isEmpty with
    | true => simp only [Document.onNodes, Document.touch, if_true]
    | false => simp only [Document.onNodes, Document.touch, Document.appendText, Bool.false_eq_true, if_false]
  | setAttribute n name value =>
    refine focused_ifElement fun e => ?_
    by_cases hname : name = "style"
    · rw [if_pos hname]
      rfl
    · rw [if_neg hname]
      rfl
  | setBodyAttribute name value => cases value <;> rfl
  | setStyle n property value => exact focused_ifElement fun _ => rfl
  | addClass n name =>
    refine focused_ifElement fun e => ?_
    split <;> rfl
  | removeClass n name =>
    refine focused_ifElement fun e => ?_
    split <;> rfl
  | listenTo n l => exact focused_ifElement fun _ => rfl
  | _ => rfl

/-- A removal takes the focus away from all that has been removed. -/
theorem focusRests_remove (rests : d.FocusRests) (n : NodeId) : ((remove n).apply d).FocusRests := by
  show ((d.remove? n).getD d).FocusRests
  unfold Document.remove?
  split
  · exact rests
  · dsimp only [Option.getD_some]
    split
    · rename_i kept
      exact kept
    · rfl

/-- The focus rests in the document wherever it moves. -/
theorem focusRests_focus (rests : d.FocusRests) (n : NodeId) : ((focus n).apply d).FocusRests := by
  show (orSame d (d.focus n)).FocusRests
  unfold Document.focus
  split
  · rename_i connected
    exact connected
  · exact rests

/-! ## Nodes that leave the document -/

/-- Where nothing has the focus, nothing is stranded. -/
theorem strands_of_focused_eq_none (hd : d.focused = none) : x.strands d = false := by
  cases x with
  | setTextContent n s => rw [strands, hd, Option.any_none, Bool.and_false]
  | appendChild parent child => rw [strands, hd, Option.any_none, Bool.and_false]
  | _ => rfl

/-- An edit that leaves the focus on a node keeps it on a node of the document if it keeps the node in the document. -/
theorem focusRests_apply_iff_of_focused (rests : d.FocusRests) (same : (x.apply d).focused = d.focused)
    (hx : ∀ n, d.focused = some n → d.isConnected n = true → ((x.apply d).isConnected n = true ↔ x.strands d = false)) :
    (x.apply d).FocusRests ↔ x.strands d = false := by
  rw [Document.focusRests_iff, same]
  cases hd : d.focused with
  | none => simp [strands_of_focused_eq_none hd]
  | some n =>
    rw [← hx n hd (Document.focusRests_iff.1 rests n hd)]
    simp

/-- When a text is exchanged, what was below the element is no longer in the document. -/
theorem isConnected_setTextContent (h : d.nodes.Intact) (hb : body < d.nodes.fresh) {n : NodeId}
    (hn : n < d.nodes.fresh) (s : String) {m : NodeId} (hm : d.isConnected m = true) :
    (d.setTextContent n s).isConnected m = true ↔
      (d.isConnected n && (m != n && d.nodes.isWithin n m)) = false := by
  have made : m < d.nodes.fresh := by
    obtain ⟨k, hk⟩ := Forest.exists_up_of_isWithin hm
    exact Forest.lt_fresh_of_up hb hk
  have size := Forest.fresh_clear d.nodes n
  have same : (d.setTextContent n s).isConnected m = (d.nodes.clear n).isWithin body m := by
    show (d.setTextContent n s).nodes.isWithin body m = _
    rw [Document.nodes_setTextContent]
    split
    · rfl
    · refine (h.clear n).placed.isWithin_congr ?_ (fun k hk => Forest.parent?_pushUnder_of_lt _ _ hk)
        (hb.trans_eq size.symm) (made.trans_eq size.symm)
      rw [Forest.fresh_pushUnder]
      exact Nat.le_succ _
  rw [same, h.isWithin_clear hn hb]
  have within : d.nodes.isWithin body m = true := hm
  have above : d.isConnected n = d.nodes.isWithin body n := rfl
  rw [above]
  cases d.nodes.isWithin body n <;> cases d.nodes.isWithin n m <;> simp [within]

/-- When a node is moved, all below it goes with it. -/
theorem isConnected_appendChild (h : d.nodes.Intact) (hb : body < d.nodes.fresh) {parent child : NodeId}
    (hc : child < d.nodes.fresh) (outside : d.nodes.isWithin child parent = false) {m : NodeId}
    (hm : d.isConnected m = true) : (d.appendChild parent child).isConnected m = true ↔
      (child != body && d.isConnected child && !d.isConnected parent && d.nodes.isWithin child m) = false := by
  -- only what is below a node of the document that is moved may leave it, with the node
  by_cases parted : child ≠ body ∧ d.isConnected child = true ∧ d.nodes.isWithin child m = true
  · obtain ⟨other, above, below⟩ := parted
    have carried : (d.appendChild parent child).isConnected m = d.isConnected parent :=
      h.isWithin_append_of_below hc outside hb other above below
    rw [carried]
    simp [other, above, below]
  · have kept : (d.appendChild parent child).isConnected m = true := by
      refine h.isWithin_append hc hb hm fun below above => ?_
      exact Decidable.byContradiction fun other => parted ⟨other, above, below⟩
    refine ⟨fun _ => eq_false_of_ne_true fun strands => parted ?_, fun _ => kept⟩
    simp only [Bool.and_eq_true, bne_iff_ne] at strands
    exact ⟨strands.1.1.1, strands.1.1.2, strands.2⟩

/-- No other edit gives a node another parent. -/
theorem parent?_apply (hr : ∀ n, x ≠ remove n) (ht : ∀ n s, x ≠ setTextContent n s)
    (ha : ∀ parent child, x ≠ appendChild parent child) {n : NodeId} (hn : n < d.nodes.fresh) :
    (x.apply d).nodes.parent? n = d.nodes.parent? n := by
  by_cases tree : Part.tree ∈ x.parts
  · cases x with
    | createElement tag => exact Forest.parent?_push _ _ n
    | appendElement parent tag => exact Forest.parent?_pushUnder_of_lt _ _ hn
    | appendIdentified parent tag identity =>
      exact (Forest.parent?_modifyContent _ _ n _).trans (Forest.parent?_pushUnder_of_lt _ _ hn)
    | appendText parent s => exact Forest.parent?_pushUnder_of_lt _ _ hn
    | appendChild parent child => exact absurd rfl (ha parent child)
    | remove n => exact absurd rfl (hr n)
    | setTextContent n s => exact absurd rfl (ht n s)
    | _ => simp [parts] at tree
  · exact ((x.apply_only d).same .tree tree).parent? n

/-- Edits that neither move nor exchange a node keep the focus in the document. -/
theorem focusRests_apply (h : d.nodes.Placed) (hb : body < d.nodes.fresh) (rests : d.FocusRests)
    (hr : ∀ n, x ≠ remove n) (hf : ∀ n, x ≠ focus n) (ht : ∀ n s, x ≠ setTextContent n s)
    (ha : ∀ parent child, x ≠ appendChild parent child) : (x.apply d).FocusRests := by
  have grows : d.nodes.fresh ≤ (x.apply d).nodes.fresh := by
    obtain ⟨k, hk⟩ := Nat.exists_eq_succ_of_ne_zero (Nat.ne_zero_of_lt hb)
    exact hk ▸ x.lt_fresh_apply (hk ▸ Nat.lt_succ_self k)
  refine Document.focusRests_iff.2 fun n hn => ?_
  rw [focused_apply hr hf] at hn
  have connected := Document.focusRests_iff.1 rests n hn
  obtain ⟨k, hk⟩ := Forest.exists_up_of_isWithin connected
  exact (h.isWithin_congr grows (fun m hm => parent?_apply hr ht ha hm) hb (Forest.lt_fresh_of_up hb hk)).trans connected

/-- An edit takes the focus off the nodes of the document exactly if it strands it. -/
theorem focusRests_apply_iff (h : d.nodes.Intact) (hb : body < d.nodes.fresh) (hx : x.Fits d)
    (rests : d.FocusRests) : (x.apply d).FocusRests ↔ x.strands d = false := by
  cases x with
  | remove n => exact iff_of_true (focusRests_remove rests n) rfl
  | focus n => exact iff_of_true (focusRests_focus rests n) rfl
  | setTextContent n s =>
    refine focusRests_apply_iff_of_focused rests (focused_apply (by simp) (by simp)) fun m hm connected => ?_
    rw [strands, hm, Option.any_some]
    exact isConnected_setTextContent h hb (hx.1 n (by simp [hangs])) s connected
  | appendChild parent child =>
    refine focusRests_apply_iff_of_focused rests (focused_apply (by simp) (by simp)) fun m hm connected => ?_
    rw [strands, hm, Option.any_some]
    exact isConnected_appendChild h hb (hx.1 child (by simp [hangs])) hx.2 connected
  | _ => exact iff_of_true (focusRests_apply h.placed hb rests (by simp) (by simp) (by simp) (by simp)) rfl

end PageEdit

namespace Document

variable {d : Document} {xs : List PageEdit}

/-! ## Runs of edits -/

/-- No edit strands the focus of the document that the edits before it have left. -/
def NeverStrands (d : Document) : List PageEdit → Prop
  | [] => True
  | x :: xs => x.strands d = false ∧ (x.apply d).NeverStrands xs

instance decidableNeverStrands (d : Document) : (xs : List PageEdit) → Decidable (d.NeverStrands xs)
  | [] => isTrue trivial
  | x :: xs =>
    have := decidableNeverStrands (x.apply d) xs
    inferInstanceAs (Decidable (_ ∧ _))

/-- Whatever edits are made, the focus rests on a node of the document, or nowhere, after each of them exactly if none
of them strands it. -/
theorem focusRests_edited_iff (h : d.nodes.Intact) (hb : body < d.nodes.fresh) (rests : d.FocusRests)
    (fit : d.AllFit xs) : (∀ ys, ys <+: xs → (d.edited ys).FocusRests) ↔ d.NeverStrands xs := by
  induction xs generalizing d with
  | nil =>
    refine iff_of_true (fun ys hys => ?_) trivial
    rw [List.prefix_nil.1 hys]
    exact rests
  | cons x xs ih =>
    -- one edit strands the focus exactly if it takes out what has it; the rest of the edits go by the document after
    -- it
    have first := PageEdit.focusRests_apply_iff h hb fit.1 rests
    have later := fun rests => ih (PageEdit.apply_intact h fit.1) (x.lt_fresh_apply hb) rests fit.2
    constructor
    · intro all
      have now : (x.apply d).FocusRests := all [x] (List.cons_prefix_cons.2 ⟨rfl, List.nil_prefix⟩)
      exact ⟨first.1 now, (later now).1 fun ys hys => all (x :: ys) (List.cons_prefix_cons.2 ⟨rfl, hys⟩)⟩
    · rintro ⟨calm, rest⟩ ys hys
      cases ys with
      | nil => exact rests
      | cons y ys =>
        obtain ⟨rfl, tail⟩ := List.cons_prefix_cons.1 hys
        exact (later (first.2 calm)).2 rest ys tail

/-- A paragraph in a section has the focus when the section is removed. -/
theorem focusRests_edited_iff_removal :
    let xs : List PageEdit := [.appendElement 0 "section", .appendElement 1 "p", .focus 2, .setTextContent 2 "Hi",
      .remove 1]
    (∀ ys, ys <+: xs → (empty.edited ys).FocusRests) ∧ (empty.edited (xs.take 4)).focused = some 2 ∧
      (empty.edited xs).focused = none := by
  intro xs
  exact ⟨(focusRests_edited_iff empty_intact (by decide) (by decide) (by decide +kernel)).2 (by decide +kernel),
    by decide +kernel, by decide +kernel⟩

/-- A node that has the focus leaves the document when a text is put in place of what its parent holds, and when it is
moved into an element that is not in the document. Both times it has the focus still. -/
theorem stranded_focus :
    let replacing : List PageEdit := [.appendElement 0 "p", .appendElement 1 "b", .focus 2, .setTextContent 1 "x"]
    let moving : List PageEdit := [.createElement "div", .appendElement 0 "p", .focus 2, .appendChild 1 2]
    (empty.AllFit replacing ∧ (empty.edited replacing).focused = some 2 ∧
      (empty.edited replacing).isConnected 2 = false) ∧
      empty.AllFit moving ∧ (empty.edited moving).focused = some 2 ∧ (empty.edited moving).isConnected 2 = false := by
  decide +kernel

end Document

end InPlace.Headless

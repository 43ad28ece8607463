import InPlace.Proofs.Headless.Rewriting
import InPlace.Proofs.Headless.Text
import InPlace.Proofs.Headless.Trees

/-!
# The count of changes

A document counts the changes of its texts, its tree, its styles and its classes that are made through the interface
that a page offers (`PageEdit.isCall`). While the count stays the same no text and no place of a node has changed. But
not every write of a style or of a class list is counted: an attribute that is taken away is not, nor is one of the
body's that is set as an attribute of the page, nor a class list that is set as an attribute (`PageEdit.Slips`). A style
and a class list that no such edit has written are what they were.

Main statements: `PageEdit.contentMutations_apply` and `Document.unchanged_of_contentMutations`.
-/

namespace InPlace.Headless

open Document (body)

namespace PageEdit

variable {x : PageEdit} {d d' : Document} {n m : NodeId} {name : String}

/-- Whether an edit is one that a page offers to an editor. The others make a page, and the editor knows none of
them. -/
def isCall : PageEdit → Bool
  | createElement _ | appendElement _ _ | appendIdentified _ _ _ | appendText _ _ | appendChild _ _
  | setComputedStyle _ _ _ | setRect _ _ | setViewportWidth _ | setLocation _ => false
  | _ => true

/-- Whether an edit is counted. -/
def counts (d : Document) : PageEdit → Bool
  | setTextContent _ _ => true
  | remove n => (d.nodes.parent? n).isSome
  | setAttribute n name _ => (d.element? n).isSome && name == "style"
  | setStyle n _ _ => (d.element? n).isSome
  | addClass n name => (d.element? n).any fun e => !(Document.classes e).contains name
  | removeClass n name => (d.element? n).any fun e => (Document.classes e).contains name
  | _ => false

/-- An edit writes the `style` or the `class` of an element and is not counted. -/
def Slips (n : NodeId) (name : String) : PageEdit → Prop
  | setAttribute m other _ => m = n ∧ other = name ∧ name ≠ "style"
  | removeAttribute m other => m = n ∧ other = name
  | setBodyAttribute other _ => n = body ∧ other = name
  | _ => False

/-- A removal is counted exactly if there was something to remove it from. -/
theorem contentMutations_remove (d : Document) (n : NodeId) :
    ((d.remove? n).getD d).contentMutations = d.contentMutations + (d.nodes.parent? n).isSome.toNat := by
  unfold Document.remove?
  cases d.nodes.parent? n with
  | none => rfl
  | some p =>
    dsimp only [Option.getD_some, Document.touch]
    split <;> rfl

theorem contentMutations_setTextContent (d : Document) (n : NodeId) (s : String) :
    (d.setTextContent n s).contentMutations = d.contentMutations + 1 := by
  unfold Document.setTextContent
  cases s.isEmpty with
  | true => simp only [Document.onNodes, Document.touch, if_true]
  | false => simp only [Document.onNodes, Document.touch, Document.appendText, Bool.false_eq_true, if_false]

/-- A change that is made to elements only counts where the node is an element. -/
theorem contentMutations_ifElement {f : Element → Document} {p : Element → Bool}
    (h : ∀ e, (f e).contentMutations = d.contentMutations + (p e).toNat) :
    (orSame d (d.ifElement n f)).contentMutations = d.contentMutations + ((d.element? n).any p).toNat := by
  unfold Document.ifElement
  cases d.element? n with
  | none => rfl
  | some e => exact h e

/-- Each edit that is counted is counted once. -/
theorem contentMutations_apply (x : PageEdit) (d : Document) :
    (x.apply d).contentMutations = d.contentMutations + (x.counts d).toNat := by
  cases x with
  | remove n => exact contentMutations_remove d n
  | setTextContent n s => exact contentMutations_setTextContent d n s
  | setAttribute n name value =>
    refine (contentMutations_ifElement (p := fun _ => name == "style") fun e => ?_).trans ?_
    · by_cases hname : name = "style"
      · rw [if_pos hname, hname]
        rfl
      · rw [if_neg hname, beq_eq_false_iff_ne.2 hname]
        rfl
    · rw [counts]
      cases d.element? n <;> simp
  | setBodyAttribute name value => cases value <;> rfl
  | setStyle n property value =>
    refine (contentMutations_ifElement (p := fun _ => true) fun e => rfl).trans ?_
    rw [counts]
    cases d.element? n <;> rfl
  | addClass n name =>
    refine contentMutations_ifElement fun e => ?_
    cases (Document.classes e).contains name <;> rfl
  | removeClass n name =>
    refine contentMutations_ifElement fun e => ?_
    cases (Document.classes e).contains name <;> rfl
  | focus n =>
    show (orSame d (d.focus n)).contentMutations = _
    unfold Document.focus
    split <;> rfl
  | listenTo n l =>
    show (orSame d (d.listenTo n l)).contentMutations = _
    unfold Document.listenTo Document.ifElement
    cases d.element? n <;> rfl
  | _ => rfl

/-! ## Edits that are not counted -/

theorem apply_of_element?_eq_none {f : Element → Document} (h : d.element? n = none) :
    orSame d (d.ifElement n f) = d := by
  unfold Document.ifElement
  rw [h]
  rfl

/-- A call that is not counted leaves the tree as it is. -/
theorem sameTree_apply (hx : x.isCall = true) (hc : x.counts d = false) : d.SameTree (x.apply d) := by
  by_cases tree : Part.tree ∈ x.parts
  · cases x with
    | remove n =>
      have alone : d.nodes.parent? n = none := Option.isNone_iff_eq_none.1 (by simpa [counts] using hc)
      have same : (remove n).apply d = d := by
        show (d.remove? n).getD d = d
        unfold Document.remove?
        rw [alone]
        rfl
      rw [same]
      exact Part.Same.refl .tree d
    | setTextContent n s => cases hc
    | createElement | appendElement | appendIdentified | appendText | appendChild => cases hx
    | _ => simp [parts] at tree
  · exact (x.apply_only d).same .tree tree

/-- A call that is not counted leaves the style of an element alone, unless it slips through. -/
theorem sameStyle_of_not_counts (hc : x.counts d = false) (hx : ¬ x.Slips n "style") :
    Document.SameStyle n d (x.apply d) := by
  by_cases restyles : x.Restyles n
  · cases x with
    | setStyle m property value =>
      have missing : d.element? m = none := Option.isNone_iff_eq_none.1 (by simpa [counts] using hc)
      rw [show (setStyle m property value).apply d = d from apply_of_element?_eq_none missing]
      exact .refl n d
    | setAttribute m other value =>
      obtain ⟨rfl, rfl⟩ := restyles.resolve_left id
      have missing : d.element? m = none := Option.isNone_iff_eq_none.1 (by simpa [counts] using hc)
      rw [show (setAttribute m "style" value).apply d = d from apply_of_element?_eq_none missing]
      exact .refl m d
    | removeAttribute m other => exact absurd (restyles.resolve_left id) hx
    | setBodyAttribute other value => exact absurd (restyles.resolve_right id) hx
    | _ => exact (restyles.elim id id).elim
  · exact sameStyle_apply restyles

/-- Class names that are there already are not added, and those that are not there are not removed. -/
theorem addClass_of_not_counts (hc : (addClass m name).counts d = false) : (addClass m name).apply d = d := by
  show orSame d (d.addClass m name) = d
  unfold Document.addClass Document.ifElement
  cases he : d.element? m with
  | none => rfl
  | some e =>
    rw [counts, he, Option.any_some, Bool.not_eq_false'] at hc
    exact congrArg (orSame d) (congrArg Except.ok (if_pos hc))

/-- A class name that is removed without being counted was not there. -/
theorem removeClass_of_not_counts (hc : (removeClass m name).counts d = false) : (removeClass m name).apply d = d := by
  show orSame d (d.removeClass m name) = d
  unfold Document.removeClass Document.ifElement
  cases he : d.element? m with
  | none => rfl
  | some e =>
    rw [counts, he, Option.any_some] at hc
    exact congrArg (orSame d) (congrArg Except.ok (if_neg (ne_true_of_eq_false hc)))

/-- An edit that is not counted leaves the class list of an element alone, unless it slips through. -/
theorem sameClass_of_not_counts (hc : x.counts d = false) (hx : ¬ x.Slips n "class") :
    (x.apply d).attribute? n "class" = d.attribute? n "class" := by
  -- of the edits that reach the classes, two count whenever they change them; the others slip through
  by_cases writes : Part.attr "class" ∈ x.parts
  · cases x with
    | addClass m name => rw [addClass_of_not_counts hc]
    | removeClass m name => rw [removeClass_of_not_counts hc]
    | setAttribute m other value =>
      obtain rfl : "class" = other := by simpa [parts] using writes
      have elsewhere : m ≠ n := fun hm => hx ⟨hm, rfl, by decide⟩
      show (orSame d (d.setAttribute m "class" value)).attribute? n "class" = _
      cases hd : d.setAttribute m "class" value with
      | error fault => rfl
      | ok d' => exact (Document.attribute?_setAttribute (by decide) hd n).trans (if_neg elsewhere)
    | removeAttribute m other =>
      obtain rfl : "class" = other := by simpa [parts] using writes
      have elsewhere : m ≠ n := fun hm => hx ⟨hm, rfl⟩
      exact (Document.attribute?_removeAttribute d m n "class").trans (if_neg elsewhere)
    | setBodyAttribute other value =>
      obtain rfl : "class" = other := by simpa [parts] using writes
      have elsewhere : body ≠ n := fun hn => hx ⟨hn.symm, rfl⟩
      have kept : ∀ f, (d.modifyElement body f).attribute? n "class" = d.attribute? n "class" := by
        intro f
        rw [Document.attribute?_eq, Document.element?_modifyElement, if_neg elsewhere, ← Document.attribute?_eq]
      cases value <;> exact kept _
    | appendIdentified => simp [parts, identityAttribute] at writes
    | _ => simp [parts] at writes
  · exact (x.apply_only d).same (.attr "class") writes n

end PageEdit

namespace Document

variable {d d' : Document} {n : NodeId} {xs : List PageEdit}

/-! ## Documents with the same count -/

theorem classNames_eq (d : Document) (n : NodeId) :
    d.classNames n = ((d.attribute? n "class").map Text.words).getD [] := by
  unfold classNames
  rw [attribute?_eq]
  cases d.element? n with
  | none => rfl
  | some e =>
    rw [Option.bind_some, readAttribute_of_ne (by decide)]
    rfl

/-- A node reads the same in both documents, but for a style or a class list that may have been written. -/
structure Unchanged (styled classed : Prop) (n : NodeId) (d d' : Document) : Prop where
  text : d'.textContent n = d.textContent n
  parent? : d'.nodes.parent? n = d.nodes.parent? n
  children : d'.nodes.children n = d.nodes.children n
  style : ¬ styled → SameStyle n d d'
  classes : ¬ classed → d'.classNames n = d.classNames n

section

variable {p q p' q' : Prop}

theorem Unchanged.refl (p q : Prop) (n : NodeId) (d : Document) : Unchanged p q n d d :=
  ⟨rfl, rfl, rfl, fun _ => .refl n d, fun _ => rfl⟩

theorem Unchanged.trans {d'' : Document} (h : Unchanged p q n d d') (h' : Unchanged p' q' n d' d'') :
    Unchanged (p ∨ p') (q ∨ q') n d d'' where
  text := h'.text.trans h.text
  parent? := h'.parent?.trans h.parent?
  children := h'.children.trans h.children
  style none := (h.style fun hp => none (.inl hp)).trans (h'.style fun hp => none (.inr hp))
  classes none := (h'.classes fun hq => none (.inr hq)).trans (h.classes fun hq => none (.inl hq))

theorem Unchanged.imp (h : Unchanged p q n d d') (hp : p → p') (hq : q → q') : Unchanged p' q' n d d' :=
  { h with style := fun none => h.style (none ∘ hp), classes := fun none => h.classes (none ∘ hq) }

end

/-- A call that is not counted changes nothing but what it slips to. -/
theorem unchanged_apply {x : PageEdit} (hx : x.isCall = true) (hc : x.counts d = false) (n : NodeId) :
    Unchanged (x.Slips n "style") (x.Slips n "class") n d (x.apply d) := by
  have tree := PageEdit.sameTree_apply hx hc
  refine ⟨textContent_of_sameTree tree n, tree.parent? n, tree.children n,
    fun none => PageEdit.sameStyle_of_not_counts hc none, fun none => ?_⟩
  rw [classNames_eq, classNames_eq, PageEdit.sameClass_of_not_counts hc none]

/-- The count never goes down. -/
theorem contentMutations_le_edited (d : Document) (xs : List PageEdit) :
    d.contentMutations ≤ (d.edited xs).contentMutations := by
  induction xs generalizing d with
  | nil => exact Nat.le_refl _
  | cons x xs ih =>
    refine le_trans ?_ (ih (x.apply d))
    rw [x.contentMutations_apply]
    exact Nat.le_add_right _ _

/-- Whatever calls are made, if the count is the same before and after, no node has changed but for a style or a class
list that a call has slipped to. -/
theorem unchanged_of_contentMutations (calls : ∀ x ∈ xs, x.isCall = true)
    (same : (d.edited xs).contentMutations = d.contentMutations) (n : NodeId) :
    Unchanged (∃ x ∈ xs, x.Slips n "style") (∃ x ∈ xs, x.Slips n "class") n d (d.edited xs) := by
  induction xs generalizing d with
  | nil => exact .refl _ _ n d
  | cons x xs ih =>
    have step := x.contentMutations_apply d
    have rest : (x.apply d).contentMutations ≤ d.contentMutations :=
      (contentMutations_le_edited (x.apply d) xs).trans_eq same
    -- the count has not gone up in between, since it would not have come down again
    have uncounted : x.counts d = false := by
      cases hc : x.counts d with
      | false => rfl
      | true =>
        rw [step, hc] at rest
        exact absurd rest (Nat.not_succ_le_self _)
    rw [uncounted, Bool.toNat_false, Nat.add_zero] at step
    have first := unchanged_apply (calls x List.mem_cons_self) uncounted n
    have later := ih (d := x.apply d) (fun y hy => calls y (List.mem_cons_of_mem x hy)) (same.trans step.symm)
    exact (first.trans later).imp (by simp) (by simp)

/-- A class name that is there already, a title and the focus leave a paragraph as it is. -/
theorem unchanged_of_contentMutations_paragraph :
    let d := empty.edited [.appendElement 0 "p", .appendText 1 "Hi", .setAttribute 1 "style" "color: red",
      .addClass 1 "big"]
    let d' := d.edited [.addClass 1 "big", .setAttribute 1 "title" "Hello", .focus 1]
    d'.contentMutations = 2 ∧ d'.textContent 1 = "Hi" ∧ d'.attribute? 1 "style" = some "color: red;" ∧
      d'.classNames 1 = ["big"] := by
  intro d d'
  have unchanged := @unchanged_of_contentMutations d [.addClass 1 "big", .setAttribute 1 "title" "Hello", .focus 1]
    (by decide) (by decide +kernel) 1
  have unstyled : ¬ ∃ x ∈ ([.addClass 1 "big", .setAttribute 1 "title" "Hello", .focus 1] : List PageEdit),
      x.Slips 1 "style" := by
    simp [PageEdit.Slips]
  have unclassed : ¬ ∃ x ∈ ([.addClass 1 "big", .setAttribute 1 "title" "Hello", .focus 1] : List PageEdit),
      x.Slips 1 "class" := by
    simp [PageEdit.Slips]
  refine ⟨by decide +kernel, unchanged.text.trans ?_, (unchanged.style unstyled).text.trans ?_,
    (unchanged.classes unclassed).trans ?_⟩
  · decide +kernel
  · decide +kernel
  · decide +kernel

/-- The style of a paragraph is taken away, and its class list is set as an attribute. The count stays as it is. -/
theorem uncounted_changes :
    let d := empty.edited [.appendElement 0 "p", .setAttribute 1 "style" "color: red"]
    let unstyled := d.edited [.removeAttribute 1 "style"]
    let classed := d.edited [.setAttribute 1 "class" "big"]
    (unstyled.contentMutations = d.contentMutations ∧ d.attribute? 1 "style" = some "color: red;" ∧
      unstyled.attribute? 1 "style" = none) ∧
      classed.contentMutations = d.contentMutations ∧ d.classNames 1 = [] ∧ classed.classNames 1 = ["big"] := by
  decide +kernel

end Document

end InPlace.Headless

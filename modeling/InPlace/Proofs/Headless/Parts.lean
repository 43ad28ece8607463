import InPlace.Headless.Page
import InPlace.Proofs.Headless.Forest

/-!
# Parts of a document

What can be read of a document falls into parts: each attribute, the tree with its texts, the listeners, each
style sheet, the cursor. A change reaches only some of them. `Document.Only parts d d'` says that `d'` differs
from `d` in these parts at most, and that what was an element still is one.

Each change of a document has one statement of this form, named for the change (`setAttribute_only`,
`setTextContent_only`). They compose by `Only.trans`.
-/

namespace InPlace.Headless

/-- The same nodes with the same tags and texts in the same places. -/
structure Document.SameTree (d d' : Document) : Prop where
  fresh : d'.nodes.fresh = d.nodes.fresh
  parent? : ∀ n, d'.nodes.parent? n = d.nodes.parent? n
  children : ∀ n, d'.nodes.children n = d.nodes.children n
  tag? : ∀ n, (d'.element? n).map Element.tag = (d.element? n).map Element.tag
  text? : ∀ n, d'.text? n = d.text? n

/-- A part of a document. -/
inductive Part where
  | attr (name : String)
  /-- Which nodes there are, with their tags, texts and places. -/
  | tree
  | elementListeners
  | documentListeners
  | stylesheet (id : String)
  | bodyCursor
  deriving DecidableEq

namespace Part

/-- Whether a part reads the same in two documents. -/
def Same : Part → Document → Document → Prop
  | attr name, d, d' => ∀ n, d'.attribute? n name = d.attribute? n name
  | tree, d, d' => d.SameTree d'
  | elementListeners, d, d' => d'.elementListeners = d.elementListeners
  | documentListeners, d, d' => d'.documentListeners = d.documentListeners
  | stylesheet id, d, d' =>
    d'.stylesheets.filter (·.1 == id) = d.stylesheets.filter (·.1 == id)
  | bodyCursor, d, d' => d'.bodyCursor = d.bodyCursor

theorem Same.refl (p : Part) (d : Document) : p.Same d d := by
  cases p with
  | attr name => exact fun _ => rfl
  | tree => exact ⟨rfl, fun _ => rfl, fun _ => rfl, fun _ => rfl, fun _ => rfl⟩
  | elementListeners => rfl
  | documentListeners => rfl
  | stylesheet id => rfl
  | bodyCursor => rfl

theorem Same.trans {p : Part} {d d' d'' : Document} (h : p.Same d d') (h' : p.Same d' d'') :
    p.Same d d'' := by
  cases p with
  | attr name => exact fun n => (h' n).trans (h n)
  | tree =>
    exact ⟨h'.fresh.trans h.fresh, fun n => (h'.parent? n).trans (h.parent? n),
      fun n => (h'.children n).trans (h.children n), fun n => (h'.tag? n).trans (h.tag? n),
      fun n => (h'.text? n).trans (h.text? n)⟩
  | elementListeners => exact Eq.trans h' h
  | documentListeners => exact Eq.trans h' h
  | stylesheet id => exact Eq.trans h' h
  | bodyCursor => exact Eq.trans h' h

end Part

namespace Document

/-- The second document differs from the first in these parts at most, and has its elements. -/
structure Only (parts : List Part) (d d' : Document) : Prop where
  elements : ∀ n, (d.element? n).isSome → (d'.element? n).isSome
  same : ∀ p, p ∉ parts → p.Same d d'

section Only

variable {ps qs : List Part} {d d' d'' : Document}

theorem Only.refl (ps : List Part) (d : Document) : Only ps d d :=
  ⟨fun _ h => h, fun p _ => .refl p d⟩

theorem Only.mono (h : Only ps d d') (hsub : ps ⊆ qs) : Only qs d d' :=
  ⟨h.elements, fun p hp => h.same p fun hin => hp (hsub hin)⟩

theorem Only.trans (h : Only ps d d') (h' : Only qs d' d'') : Only (ps ++ qs) d d'' := by
  refine ⟨fun n hn => h'.elements n (h.elements n hn), ?_⟩
  intro p hp
  rw [List.mem_append, not_or] at hp
  exact (h.same p hp.1).trans (h'.same p hp.2)

/-- Two changes of the same parts. -/
theorem Only.andThen (h : Only ps d d') (h' : Only ps d' d'') : Only ps d d'' :=
  (h.trans h').mono fun p hp => by simpa using hp

end Only

/-! ## Elements -/

theorem element?_modifyElement (d : Document) (n m : NodeId) (f : Element → Element) :
    (d.modifyElement n f).element? m =
      if n = m then (d.element? m).map f else d.element? m :=
  Forest.bind_content?_modifyContent_of_map d.nodes n m fun c => by cases c <;> rfl

theorem text?_modifyElement (d : Document) (n m : NodeId) (f : Element → Element) :
    (d.modifyElement n f).text? m = d.text? m :=
  Forest.bind_content?_modifyContent d.nodes n m fun c => by cases c <;> rfl

/-- An attribute of an element as it reads. -/
def readAttribute (name : String) (e : Element) : Option String :=
  if name = "style" ∧ e.styles ≠ [] then some (Styles.text e.styles) else e.attributes.get? name

theorem attribute?_eq (d : Document) (n : NodeId) (name : String) :
    d.attribute? n name = (d.element? n).bind (readAttribute name) :=
  rfl

theorem readAttribute_of_ne {name : String} (h : name ≠ "style") (e : Element) :
    readAttribute name e = e.attributes.get? name := by
  unfold readAttribute
  rw [if_neg fun hs => h hs.1]

/-- Nothing in an empty document has an attribute. -/
theorem attribute?_empty (n : NodeId) (name : String) : empty.attribute? n name = none := by
  have content : empty.nodes.content? n = if n = 0 then some (.element { tag := "body" }) else none :=
    Forest.content?_push {} _ n
  rw [attribute?_eq, element?, content]
  split
  · simp [Content.element?, readAttribute, Table.get?]
  · rfl

/-- What has an attribute is an element. -/
theorem isSome_element?_of_attribute? {d : Document} {n : NodeId} {name : String}
    (h : (d.attribute? n name).isSome) : (d.element? n).isSome := by
  rw [attribute?_eq] at h
  cases he : d.element? n with
  | none => simp [he] at h
  | some e => rfl

/-- A change of an element that keeps its tag and reads otherwise only in some attributes. -/
theorem modifyElement_only {ps : List Part} (d : Document) (n : NodeId) {f : Element → Element}
    (htag : ∀ e, (f e).tag = e.tag)
    (hread : ∀ e name, .attr name ∉ ps → readAttribute name (f e) = readAttribute name e) :
    Only ps d (d.modifyElement n f) := by
  constructor
  · intro m hm
    rw [element?_modifyElement]
    split
    · simpa using hm
    · exact hm
  · intro p hp
    cases p with
    | attr name =>
      intro m
      rw [attribute?_eq, attribute?_eq, element?_modifyElement]
      split
      · cases d.element? m with
        | none => rfl
        | some e => exact hread e name hp
      · rfl
    | tree =>
      refine ⟨Forest.fresh_modifyContent _ _ _, fun m => Forest.parent?_modifyContent _ _ m _,
        fun m => Forest.children_modifyContent _ _ m _, fun m => ?_,
        fun m => text?_modifyElement d n m f⟩
      rw [element?_modifyElement]
      split
      · cases d.element? m with
        | none => rfl
        | some e => exact congrArg some (htag e)
      · rfl
    | elementListeners => rfl
    | documentListeners => rfl
    | stylesheet id => rfl
    | bodyCursor => rfl

/-! ## Attributes and styles -/

/-- What is done to an element is done if there is one. -/
theorem ifElement_eq_ok {d d' : Document} {n : NodeId} {f : Element → Document}
    (h : d.ifElement n f = .ok d') : ∃ e, d.element? n = some e ∧ f e = d' := by
  unfold ifElement at h
  cases he : d.element? n with
  | none => simp [he] at h
  | some e =>
    rw [he] at h
    exact ⟨e, rfl, Except.ok.inj h⟩

theorem ifElement_of_isSome {d : Document} {n : NodeId} (h : (d.element? n).isSome) (f : Element → Document) :
    ∃ e, d.element? n = some e ∧ d.ifElement n f = .ok (f e) := by
  obtain ⟨e, he⟩ := Option.isSome_iff_exists.1 h
  refine ⟨e, he, ?_⟩
  unfold ifElement
  rw [he]

/-- A change outside of the tree reaches what it does not leave as it is. -/
theorem only_of_nodes {ps : List Part} {d d' : Document} (hn : d'.nodes = d.nodes)
    (he : .elementListeners ∉ ps → d'.elementListeners = d.elementListeners)
    (hd : .documentListeners ∉ ps → d'.documentListeners = d.documentListeners)
    (hs : ∀ id, .stylesheet id ∉ ps → (Part.stylesheet id).Same d d')
    (hc : .bodyCursor ∉ ps → d'.bodyCursor = d.bodyCursor) : Only ps d d' := by
  have hel : ∀ n, d'.element? n = d.element? n := fun n => by simp only [element?, hn]
  refine ⟨fun n h => by rw [hel]; exact h, ?_⟩
  intro p hp
  cases p with
  | attr name => exact fun n => by rw [attribute?_eq, attribute?_eq, hel]
  | tree =>
    refine ⟨by rw [hn], fun n => by rw [hn], fun n => by rw [hn], fun n => by rw [hel], ?_⟩
    intro n
    simp only [text?, hn]
  | elementListeners => exact he hp
  | documentListeners => exact hd hp
  | stylesheet id => exact hs id hp
  | bodyCursor => exact hc hp

/-- Counting a change changes nothing that can be read. -/
theorem touch_only (d : Document) : Only [] d d.touch :=
  only_of_nodes rfl (fun _ => rfl) (fun _ => rfl) (fun _ _ => rfl) fun _ => rfl

/-- Where the focus is cannot be read from any part. -/
theorem focused_only (d : Document) (focused : Option NodeId) : Only [] d { d with focused } :=
  only_of_nodes rfl (fun _ => rfl) (fun _ => rfl) (fun _ _ => rfl) fun _ => rfl

theorem Only.touch {ps : List Part} {d d' : Document} (h : Only ps d d') : Only ps d d'.touch :=
  (h.trans (touch_only d')).mono (by simp)

/-- A change of one attribute in an element's table. -/
theorem modifyAttributes_only (d : Document) (n : NodeId) {name : String} {f : Table → Table}
    (hf : ∀ t other, name ≠ other → (f t).get? other = t.get? other) :
    Only [.attr name] d (d.modifyElement n fun e => { e with attributes := f e.attributes }) := by
  refine modifyElement_only d n (fun _ => rfl) ?_
  intro e other ho
  have hne : name ≠ other := fun h => ho (by simp [h])
  simp only [readAttribute, hf _ _ hne]

/-- A change of an element's declarations. -/
theorem modifyStyles_only (d : Document) (n : NodeId) (f : Table → Table) :
    Only [.attr "style"] d (d.modifyElement n fun e => { e with styles := f e.styles }) := by
  refine modifyElement_only d n (fun _ => rfl) ?_
  intro e other ho
  have hne : other ≠ "style" := fun h => ho (by simp [h])
  simp only [readAttribute_of_ne hne]

theorem putAttribute_only (d : Document) (n : NodeId) (name value : String) :
    Only [.attr name] d
      (d.modifyElement n fun e => { e with attributes := e.attributes.put name value }) :=
  modifyAttributes_only d n fun t other hne => by rw [Table.get?_put, if_neg hne]

/-- An attribute that is set changes nothing else. -/
theorem setAttribute_only {d d' : Document} {n : NodeId} {name value : String}
    (h : d.setAttribute n name value = .ok d') : Only [.attr name] d d' := by
  obtain ⟨e, -, rfl⟩ := ifElement_eq_ok h
  -- of `style` the declarations are kept beside the text, and both are the one attribute
  have put := putAttribute_only d n name value
  dsimp only
  split
  · rename_i hstyle
    subst hstyle
    exact (put.andThen (modifyStyles_only _ n fun _ => Styles.ofText value)).touch
  · exact put

/-- An attribute that is removed changes nothing else. -/
theorem removeAttribute_only (d : Document) (n : NodeId) (name : String) :
    Only [.attr name] d (d.removeAttribute n name) := by
  refine modifyElement_only d n (fun _ => rfl) ?_
  intro e other ho
  have hne : name ≠ other := fun h => ho (by simp [h])
  unfold readAttribute
  rw [Table.get?_drop, if_neg hne]
  by_cases hs : other = "style"
  · simp only [hs, if_neg (hs ▸ hne)]
  · simp only [hs, false_and, if_false]

theorem setBodyAttribute_only (d : Document) (name : String) (value : Option String) :
    Only [.attr name] d (d.setBodyAttribute name value) := by
  cases value with
  | none =>
    exact modifyAttributes_only d body fun t other hne => by rw [Table.get?_drop, if_neg hne]
  | some v => exact putAttribute_only d body name v

/-- What an attribute reads after it was written. -/
theorem attribute?_setAttribute {d d' : Document} {n : NodeId} {name value : String}
    (hname : name ≠ "style") (h : d.setAttribute n name value = .ok d') (m : NodeId) :
    d'.attribute? m name = if n = m then some value else d.attribute? m name := by
  obtain ⟨e, he, rfl⟩ := ifElement_eq_ok h
  dsimp only
  -- the text of `style` would be written anew from its declarations, so this needs `hname`
  rw [if_neg hname, attribute?_eq, attribute?_eq, element?_modifyElement]
  split
  · rename_i hnm
    subst hnm
    simp [he, readAttribute_of_ne hname, Table.get?_put]
  · rfl

/-- An attribute that was taken away is absent. -/
theorem attribute?_removeAttribute (d : Document) (n m : NodeId) (name : String) :
    (d.removeAttribute n name).attribute? m name = if n = m then none else d.attribute? m name := by
  unfold removeAttribute
  rw [attribute?_eq, attribute?_eq, element?_modifyElement]
  split
  · cases d.element? m with
    | none => rfl
    | some e =>
      by_cases hs : name = "style" <;> simp [readAttribute, Table.get?_drop, hs]
  · rfl

/-- What an attribute of the body reads after it was set. -/
theorem attribute?_setBodyAttribute {d : Document} {name : String} (hname : name ≠ "style")
    (hbody : (d.element? body).isSome) (value : Option String) :
    (d.setBodyAttribute name value).attribute? body name = value := by
  obtain ⟨e, he⟩ := Option.isSome_iff_exists.1 hbody
  cases value with
  | none =>
    unfold setBodyAttribute
    rw [attribute?_eq, element?_modifyElement, if_pos rfl, he]
    simp [readAttribute_of_ne hname, Table.get?_drop]
  | some v =>
    unfold setBodyAttribute
    rw [attribute?_eq, element?_modifyElement, if_pos rfl, he]
    simp [readAttribute_of_ne hname, Table.get?_put]

theorem setStyle_only {d d' : Document} {n : NodeId} {property value : String}
    (h : d.setStyle n property value = .ok d') : Only [.attr "style"] d d' := by
  obtain ⟨e, -, rfl⟩ := ifElement_eq_ok h
  exact (modifyStyles_only d n fun t => t.put _ value).touch

theorem setClasses_only (d : Document) (n : NodeId) (names : List String) :
    Only [.attr "class"] d (d.setClasses n names) :=
  (putAttribute_only d n "class" _).touch

theorem addClass_only {d d' : Document} {n : NodeId} {name : String}
    (h : d.addClass n name = .ok d') : Only [.attr "class"] d d' := by
  obtain ⟨e, -, rfl⟩ := ifElement_eq_ok h
  split
  · exact .refl _ d
  · exact setClasses_only d n _

theorem removeClass_only {d d' : Document} {n : NodeId} {name : String}
    (h : d.removeClass n name = .ok d') : Only [.attr "class"] d d' := by
  obtain ⟨e, -, rfl⟩ := ifElement_eq_ok h
  split
  · exact setClasses_only d n _
  · exact .refl _ d

theorem setComputedStyle_only (d : Document) (n : NodeId) (property value : String) :
    Only [] d (d.setComputedStyle n property value) :=
  modifyElement_only d n (fun _ => rfl) fun _ _ _ => rfl

theorem setRect_only (d : Document) (n : NodeId) (r : Rect) : Only [] d (d.setRect n r) :=
  modifyElement_only d n (fun _ => rfl) fun _ _ _ => rfl

/-! ## The tree -/

/-- A change of the tree in which nodes stay what they are and new ones have no attribute. -/
theorem onNodes_only (d : Document) {f : Forest Content → Forest Content}
    (hkept : ∀ n c, d.nodes.content? n = some c → (f d.nodes).content? n = some c)
    (hnew : ∀ n, d.nodes.content? n = none →
      ∀ e, (d.onNodes f).element? n = some e → e.attributes = [] ∧ e.styles = []) :
    Only [.tree] d (d.onNodes f) := by
  have kept : ∀ n e, d.element? n = some e → (d.onNodes f).element? n = some e := by
    intro n e he
    obtain ⟨c, hc, hce⟩ := Option.bind_eq_some_iff.1 he
    exact Option.bind_eq_some_iff.2 ⟨c, hkept n c hc, hce⟩
  constructor
  · intro n hn
    obtain ⟨e, he⟩ := Option.isSome_iff_exists.1 hn
    rw [kept n e he]
    rfl
  · intro p hp
    cases p with
    | attr name =>
      intro n
      rw [attribute?_eq, attribute?_eq]
      cases hc : d.nodes.content? n with
      | some c =>
        have h1 : d.element? n = c.element? := by simp [element?, hc]
        have h2 : (d.onNodes f).element? n = c.element? := by simp [element?, onNodes, hkept n c hc]
        rw [h1, h2]
      | none =>
        have h1 : d.element? n = none := by simp [element?, hc]
        rw [h1]
        cases he : (d.onNodes f).element? n with
        | none => rfl
        | some e =>
          obtain ⟨ha, hs⟩ := hnew n hc e he
          simp [readAttribute, ha, hs, Table.get?]
    | tree => exact absurd (by simp) hp
    | elementListeners => rfl
    | documentListeners => rfl
    | stylesheet id => rfl
    | bodyCursor => rfl

/-- A change of places only. -/
theorem relocate_only (d : Document) {f : Forest Content → Forest Content}
    (h : ∀ n, (f d.nodes).content? n = d.nodes.content? n) : Only [.tree] d (d.onNodes f) := by
  refine onNodes_only d (fun n c hc => (h n).trans hc) ?_
  intro n hn e he
  have nothing : (d.onNodes f).element? n = none := by simp [element?, onNodes, h, hn]
  rw [nothing] at he
  simp at he

/-- One more node, a text or an element without attributes. -/
theorem grow_only (d : Document) {f : Forest Content → Forest Content} {c : Content}
    (h : ∀ n, (f d.nodes).content? n = if n = d.nodes.fresh then some c else d.nodes.content? n)
    (hc : ∀ e, c.element? = some e → e.attributes = [] ∧ e.styles = []) :
    Only [.tree] d (d.onNodes f) := by
  refine onNodes_only d ?_ ?_
  · intro n c' hn
    rw [h, if_neg (Nat.ne_of_lt (Forest.lt_fresh_of_content? hn)), hn]
  · intro n hn e he
    obtain ⟨c', hc', hce⟩ := Option.bind_eq_some_iff.1 he
    rw [show (d.onNodes f).nodes = f d.nodes from rfl, h] at hc'
    split at hc'
    · cases hc'
      exact hc e hce
    · rw [hn] at hc'
      simp at hc'

theorem createElement_only (d : Document) (tag : String) : Only [.tree] d (d.createElement tag) :=
  grow_only d (fun n => Forest.content?_push _ _ n) fun e he => by
    cases he
    exact ⟨rfl, rfl⟩

theorem appendElement_only (d : Document) (parent : NodeId) (tag : String) :
    Only [.tree] d (d.appendElement parent tag) :=
  grow_only d (fun n => Forest.content?_pushUnder _ _ _ n) fun e he => by
    cases he
    exact ⟨rfl, rfl⟩

theorem appendText_only (d : Document) (parent : NodeId) (s : String) :
    Only [.tree] d (d.appendText parent s) :=
  grow_only d (fun n => Forest.content?_pushUnder _ _ _ n) fun e he => by simp [Content.element?] at he

theorem appendIdentified_only (d : Document) (parent : NodeId) (tag identity : String) :
    Only [.tree, .attr identityAttribute] d (d.appendIdentified parent tag identity) :=
  (appendElement_only d parent tag).trans (putAttribute_only _ _ _ _)

theorem appendChild_only (d : Document) (parent child : NodeId) :
    Only [.tree] d (d.appendChild parent child) :=
  relocate_only d fun n => Forest.content?_append _ _ _ n

/-- A text that is exchanged changes the tree and nothing else. -/
theorem setTextContent_only (d : Document) (n : NodeId) (s : String) :
    Only [.tree] d (d.setTextContent n s) := by
  have emptied : Only [.tree] d (d.onNodes fun nodes => nodes.clear n) :=
    relocate_only d fun m => Forest.content?_clear _ _ m
  unfold setTextContent
  dsimp only
  split
  · exact emptied.touch
  · exact (emptied.andThen (appendText_only _ n s)).touch

/-- A node that is removed changes the tree and nothing else. -/
theorem remove?_only {d d' : Document} {n : NodeId} (h : d.remove? n = some d') :
    Only [.tree] d d' := by
  have detached : Only [.tree] d (d.onNodes fun nodes => nodes.detach n) :=
    relocate_only d fun m => Forest.content?_detach _ _ m
  unfold remove? at h
  split at h
  · simp at h
  · cases Option.some.inj h
    refine Only.touch ?_
    split
    · exact detached
    · exact (detached.trans (focused_only _ none)).mono (List.Subset.refl _)

/-! ## Surroundings -/

theorem focus_only {d d' : Document} {n : NodeId} (h : d.focus n = .ok d') : Only [] d d' := by
  unfold focus at h
  split at h
  · cases Except.ok.inj h
    exact focused_only d _
  · simp at h

theorem injectStylesheet_only (d : Document) (id css : String) :
    Only [.stylesheet id] d (d.injectStylesheet id css) := by
  refine only_of_nodes rfl (fun _ => rfl) (fun _ => rfl) ?_ fun _ => rfl
  intro other hp
  have hne : id ≠ other := fun h => hp (by simp [h])
  show (d.stylesheets ++ [(id, css)]).filter _ = _
  simp [hne]

theorem removeStylesheet_only (d : Document) (id : String) :
    Only [.stylesheet id] d (d.removeStylesheet id) := by
  refine only_of_nodes rfl (fun _ => rfl) (fun _ => rfl) ?_ fun _ => rfl
  intro other hp
  have hne : id ≠ other := fun h => hp (by simp [h])
  show (d.stylesheets.filter _).filter _ = _
  rw [List.filter_filter]
  apply List.filter_congr
  intro sheet _
  by_cases h : sheet.1 = other
  · simp [h, Ne.symm hne]
  · simp [h]

theorem bodyCursor_only (d : Document) (cursor : Option String) :
    Only [.bodyCursor] d { d with bodyCursor := cursor } :=
  only_of_nodes rfl (fun _ => rfl) (fun _ => rfl) (fun _ _ => rfl) fun h => absurd (by simp) h

theorem listen_only (d : Document) (l : DocumentEvent) : Only [.documentListeners] d (d.listen l) :=
  only_of_nodes rfl (fun _ => rfl) (fun h => absurd (by simp) h) (fun _ _ => rfl) fun _ => rfl

theorem unlisten_only (d : Document) (l : DocumentEvent) :
    Only [.documentListeners] d (d.unlisten l) :=
  only_of_nodes rfl (fun _ => rfl) (fun h => absurd (by simp) h) (fun _ _ => rfl) fun _ => rfl

theorem listenTo_only {d d' : Document} {n : NodeId} {l : ElementEvent}
    (h : d.listenTo n l = .ok d') : Only [.elementListeners] d d' := by
  obtain ⟨e, -, rfl⟩ := ifElement_eq_ok h
  exact only_of_nodes rfl (fun h => absurd (by simp) h) (fun _ => rfl) (fun _ _ => rfl) fun _ => rfl

theorem unlistenTo_only (d : Document) (n : NodeId) (l : ElementEvent) :
    Only [.elementListeners] d (d.unlistenTo n l) :=
  only_of_nodes rfl (fun h => absurd (by simp) h) (fun _ => rfl) (fun _ _ => rfl) fun _ => rfl

end Document

end InPlace.Headless

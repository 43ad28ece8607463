import InPlace.Proofs.Headless.Contents

/-!
# Inline styles

An element has its inline style twice: as declarations, and as a text in its `style` attribute. The attribute reads as
the declarations do, if there are any. It is set with a text, from which the declarations are read, and a declaration
that is written by itself leaves the text behind. So the declarations are those that the attribute says (`Worded`) as
long as nobody writes a declaration by itself, and then the style can be put back from what the attribute read.

Main statements: `PageEdit.sameStyle_apply` (an edit that does not write the style of an element leaves it alone) and
`HasStyle.sameStyle` (a style that is put back as it read is the style that it was).
-/

namespace InPlace.Headless

namespace Document

/-- The declarations of an element's inline style. -/
def declarations (d : Document) (n : NodeId) : Table :=
  ((d.element? n).map Element.styles).getD []

/-- The value that the inline style of an element gives to a property. -/
def inlineStyle? (d : Document) (n : NodeId) (property : String) : Option String :=
  (d.declarations n).get? (Styles.propertyName property)

/-- An element has the same inline style in both documents. -/
structure SameStyle (n : NodeId) (d d' : Document) : Prop where
  declarations : d'.declarations n = d.declarations n
  text : d'.attribute? n "style" = d.attribute? n "style"

/-- The declarations of an element are those that its `style` attribute says. -/
def Worded (d : Document) (n : NodeId) : Prop :=
  d.declarations n = ((d.attribute? n "style").map Styles.ofText).getD []

/-- An element has the inline style that was set with a text, or that was taken away. -/
structure HasStyle (d : Document) (n : NodeId) (style : Option String) : Prop where
  declarations : d.declarations n = (style.map Styles.ofText).getD []
  text : d.attribute? n "style" = style.map Styles.rewritten

section

variable {d d' d'' : Document} {n m : NodeId}

theorem SameStyle.refl (n : NodeId) (d : Document) : SameStyle n d d :=
  ⟨rfl, rfl⟩

theorem SameStyle.trans (h : SameStyle n d d') (h' : SameStyle n d' d'') : SameStyle n d d'' :=
  ⟨h'.declarations.trans h.declarations, h'.text.trans h.text⟩

theorem SameStyle.worded (h : SameStyle n d d') (hw : d.Worded n) : d'.Worded n := by
  unfold Worded
  rw [h.declarations, h.text]
  exact hw

theorem sameStyle_of_element? (h : d'.element? n = d.element? n) : SameStyle n d d' := by
  refine ⟨?_, ?_⟩
  · unfold declarations
    rw [h]
  · rw [attribute?_eq, attribute?_eq, h]

theorem sameStyle_of_nodes (h : d'.nodes = d.nodes) : SameStyle n d d' :=
  sameStyle_of_element? (by unfold element?; rw [h])

/-- In documents that look the same, with the same attributes, the styles are the same. -/
theorem SameLooks.sameStyle (h : d.SameLooks d')
    (ha : d'.attribute? n "style" = d.attribute? n "style") : SameStyle n d d' :=
  ⟨congrArg (fun styles => styles.getD []) (h.read (fun look => look.2.1) n), ha⟩

/-- A change of another element. -/
theorem sameStyle_modifyElement_of_ne (d : Document) (h : m ≠ n) (f : Element → Element) :
    SameStyle n d (d.modifyElement m f) :=
  sameStyle_of_element? (by rw [element?_modifyElement, if_neg h])

/-- A change of an element that leaves its style as it is. -/
theorem sameStyle_modifyElement (d : Document) (m n : NodeId) {f : Element → Element}
    (hs : ∀ e, (f e).styles = e.styles)
    (ha : ∀ e, (f e).attributes.get? "style" = e.attributes.get? "style") :
    SameStyle n d (d.modifyElement m f) := by
  refine ⟨?_, ?_⟩
  · unfold declarations
    rw [element?_modifyElement]
    split
    · rw [Option.map_map]
      exact congrArg (fun styles => styles.getD []) (Option.map_congr fun e _ => hs e)
    · rfl
  · rw [attribute?_eq, attribute?_eq, element?_modifyElement]
    split
    · rw [Option.bind_map]
      refine Option.bind_congr fun e _ => ?_
      simp only [Function.comp_apply, readAttribute, hs, ha]
    · rfl

theorem sameStyle_putAttribute (d : Document) (m n : NodeId) {name : String} (h : name ≠ "style")
    (value : String) : SameStyle n d
      (d.modifyElement m fun e => { e with attributes := e.attributes.put name value }) :=
  sameStyle_modifyElement d m n (fun _ => rfl) fun e => by rw [Table.get?_put, if_neg h]

/-- The `style` attribute reads as the declarations do, if there are any. -/
theorem attribute?_of_declarations (h : d.declarations n ≠ []) :
    d.attribute? n "style" = some (Styles.text (d.declarations n)) := by
  rw [attribute?_eq]
  unfold declarations at h ⊢
  cases he : d.element? n with
  | none => exact absurd (by rw [he]; rfl) h
  | some e =>
    rw [he] at h
    exact if_pos ⟨rfl, h⟩

/-- What has no `style` attribute has no declarations. -/
theorem declarations_eq_nil (h : d.attribute? n "style" = none) : d.declarations n = [] := by
  by_contra hne
  cases h.symm.trans (attribute?_of_declarations hne)

theorem worded_of_attribute? (h : d.attribute? n "style" = none) : d.Worded n := by
  unfold Worded
  rw [declarations_eq_nil h, h]
  rfl

end

end Document

namespace PageEdit

open Document

variable {x : PageEdit} {d : Document} {n : NodeId}

/-- An edit writes a declaration of an element by itself. A text that the body is given as an attribute of the page's
is not read, so that it leaves the declarations behind in the same way. -/
def Declares (n : NodeId) : PageEdit → Prop
  | setStyle m _ _ => m = n
  | setBodyAttribute name _ => n = Document.body ∧ name = "style"
  | _ => False

/-- An edit writes the inline style of an element as a text, or takes it away. -/
def Words (n : NodeId) : PageEdit → Prop
  | setAttribute m name _ | removeAttribute m name => m = n ∧ name = "style"
  | _ => False

/-- An edit changes the inline style of an element or its text. -/
def Restyles (n : NodeId) (x : PageEdit) : Prop :=
  x.Declares n ∨ x.Words n

theorem sameStyle_orSame {r : Except PageError Document} (h : ∀ d', r = .ok d' → SameStyle n d d') :
    SameStyle n d (orSame d r) := by
  cases r with
  | ok d' => exact h d' rfl
  | error fault => exact .refl n d

/-- An attribute that is set leaves the style of an element, unless it is its style text. -/
theorem sameStyle_setAttribute {m : NodeId} {name value : String} {d' : Document}
    (h : ¬ (m = n ∧ name = "style")) (hd : d.setAttribute m name value = .ok d') : SameStyle n d d' := by
  obtain ⟨e, -, rfl⟩ := ifElement_eq_ok hd
  dsimp only
  split
  · rename_i hname
    have other : m ≠ n := fun hm => h ⟨hm, hname⟩
    exact ((sameStyle_modifyElement_of_ne d other _).trans (sameStyle_modifyElement_of_ne _ other _)).trans
      (sameStyle_of_nodes rfl)
  · rename_i hname
    exact sameStyle_putAttribute d m n hname value

theorem sameStyle_removeAttribute {m : NodeId} {name : String} (d : Document)
    (h : ¬ (m = n ∧ name = "style")) : SameStyle n d (d.removeAttribute m name) := by
  by_cases hname : name = "style"
  · exact sameStyle_modifyElement_of_ne d (fun hm => h ⟨hm, hname⟩) _
  · exact sameStyle_modifyElement d m n (fun e => if_neg hname) fun e => by
      rw [Table.get?_drop, if_neg hname]

theorem sameStyle_setClasses (d : Document) (m n : NodeId) (names : List String) :
    SameStyle n d (d.setClasses m names) :=
  (sameStyle_putAttribute d m n (show "class" ≠ "style" by decide) _).trans (sameStyle_of_nodes rfl)

/-- An edit of the tree leaves the style of every element alone, and a new one has none. -/
theorem sameStyle_of_tree (hx : .tree ∈ x.parts) (hs : .attr "style" ∉ x.parts) :
    SameStyle n d (x.apply d) := by
  have text : (x.apply d).attribute? n "style" = d.attribute? n "style" := (x.apply_only d).same (.attr "style") hs n
  by_cases hn : n < d.nodes.fresh
  · exact sameStyle_of_element? (element?_apply hx hn)
  · have missing : d.attribute? n "style" = none := by
      rw [attribute?_eq, element?, Forest.content?_eq_none_of_fresh_le (Nat.le_of_not_lt hn)]
      rfl
    refine ⟨?_, text⟩
    rw [declarations_eq_nil missing, declarations_eq_nil (text.trans missing)]

/-- An edit that does not write the style of an element leaves it alone. -/
theorem sameStyle_apply (hx : ¬ x.Restyles n) : SameStyle n d (x.apply d) := by
  cases x with
  | setAttribute m name value => exact sameStyle_orSame fun _ h => sameStyle_setAttribute (hx ∘ .inr) h
  | removeAttribute m name => exact sameStyle_removeAttribute d (hx ∘ .inr)
  | setBodyAttribute name value =>
    by_cases hname : name = "style"
    · have other : Document.body ≠ n := fun hn => hx (.inl ⟨hn.symm, hname⟩)
      cases value with
      | some v => exact sameStyle_modifyElement_of_ne d other _
      | none => exact sameStyle_modifyElement_of_ne d other _
    · cases value with
      | some v => exact sameStyle_putAttribute d Document.body n hname v
      | none =>
        exact sameStyle_modifyElement d Document.body n (fun _ => rfl) fun e => by
          rw [Table.get?_drop, if_neg hname]
  | setStyle m property value =>
    refine sameStyle_orSame fun _ h => ?_
    obtain ⟨e, -, rfl⟩ := ifElement_eq_ok h
    exact (sameStyle_modifyElement_of_ne d (hx ∘ .inl) _).trans (sameStyle_of_nodes rfl)
  | setComputedStyle m property value => exact sameStyle_modifyElement d m n (fun _ => rfl) fun _ => rfl
  | setRect m r => exact sameStyle_modifyElement d m n (fun _ => rfl) fun _ => rfl
  | addClass m name =>
    refine sameStyle_orSame fun _ h => ?_
    obtain ⟨e, -, rfl⟩ := ifElement_eq_ok h
    split
    · exact .refl n d
    · exact sameStyle_setClasses d m n _
  | removeClass m name =>
    refine sameStyle_orSame fun _ h => ?_
    obtain ⟨e, -, rfl⟩ := ifElement_eq_ok h
    split
    · exact sameStyle_setClasses d m n _
    · exact .refl n d
  | focus m =>
    exact sameStyle_orSame fun _ h => (sameLooks_focus h).sameStyle ((focus_only h).same (.attr "style") (by decide) n)
  | listenTo m l =>
    exact sameStyle_orSame fun _ h =>
      (sameLooks_listenTo h).sameStyle ((listenTo_only h).same (.attr "style") (by decide) n)
  | setViewportWidth width => exact sameStyle_of_nodes rfl
  | setLocation url => exact sameStyle_of_nodes rfl
  | injectStylesheet id css => exact sameStyle_of_nodes rfl
  | removeStylesheet id => exact sameStyle_of_nodes rfl
  | setBodyCursor cursor => exact sameStyle_of_nodes rfl
  | listen l => exact sameStyle_of_nodes rfl
  | unlisten l => exact sameStyle_of_nodes rfl
  | unlistenTo m l => exact sameStyle_of_nodes rfl
  | _ => exact sameStyle_of_tree (by simp [parts]) (by simp [parts, identityAttribute])

end PageEdit

namespace Document

variable {d : Document} {n : NodeId} {style : Option String}

/-! ## Styles that are put back -/

/-- A style text that is set is read into declarations. -/
theorem declarations_setAttribute_style {d' : Document} {value : String}
    (h : d.setAttribute n "style" value = .ok d') : d'.declarations n = Styles.ofText value := by
  obtain ⟨e, he, rfl⟩ := ifElement_eq_ok h
  have written : ((d.modifyElement n fun e => { e with attributes := e.attributes.put "style" value })
      |>.modifyElement n fun e => { e with styles := Styles.ofText value }).declarations n =
        Styles.ofText value := by
    unfold declarations
    rw [element?_modifyElement, if_pos rfl, element?_modifyElement, if_pos rfl, he]
    rfl
  exact written

/-- An element whose style was put back has that style. -/
theorem hasStyle_restyled (h : (d.element? n).isSome) (style : Option String) :
    (d.restyled n style).HasStyle n style := by
  refine ⟨?_, (attribute?_restyled d n style n).trans (if_pos ⟨rfl, h⟩)⟩
  cases style with
  | some value =>
    obtain ⟨d', hd⟩ : ∃ d', d.setAttribute n "style" value = .ok d' :=
      let ⟨_, _, worked⟩ := ifElement_of_isSome h _
      ⟨_, worked⟩
    show declarations (PageEdit.orSame d (d.setAttribute n "style" value)) n = _
    rw [hd]
    exact declarations_setAttribute_style hd
  | none =>
    have removed := (attribute?_removeAttribute d n n "style").trans (if_pos rfl)
    exact declarations_eq_nil removed

/-- Other elements keep their styles. -/
theorem sameStyle_restyled_of_ne (d : Document) {m : NodeId} (h : m ≠ n) (style : Option String) :
    SameStyle n d (d.restyled m style) := by
  cases style with
  | some value => exact PageEdit.sameStyle_orSame fun _ hd => PageEdit.sameStyle_setAttribute (fun hm => h hm.1) hd
  | none => exact PageEdit.sameStyle_removeAttribute d fun hm => h hm.1

theorem SameStyle.hasStyle {d' : Document} (h : SameStyle n d d') (hs : d.HasStyle n style) :
    d'.HasStyle n style :=
  ⟨h.declarations.trans hs.declarations, h.text.trans hs.text⟩

/-- What was written as a text is what the text says. -/
theorem HasStyle.worded (h : d.HasStyle n style) : d.Worded n := by
  unfold Worded
  rw [h.declarations, h.text, Option.map_map]
  exact congrArg (fun ds => ds.getD []) (Option.map_congr fun s _ => (Styles.ofText_rewritten s).symm)

theorem worded_restyled (d : Document) (n : NodeId) (style : Option String) : (d.restyled n style).Worded n := by
  by_cases h : (d.element? n).isSome
  · exact (hasStyle_restyled h style).worded
  · have missing : d.attribute? n "style" = none := by
      rw [attribute?_eq, Option.not_isSome_iff_eq_none.1 h]
      rfl
    refine worded_of_attribute? ?_
    rw [attribute?_restyled, if_neg fun there => h there.2, missing]

/-- What the attribute reads is written from the declarations already. -/
theorem Worded.rewritten (h : d.Worded n) :
    (d.attribute? n "style").map Styles.rewritten = d.attribute? n "style" := by
  cases hs : d.attribute? n "style" with
  | none => rfl
  | some s =>
    have said : d.declarations n = Styles.ofText s := by
      unfold Worded at h
      rw [hs] at h
      exact h
    rw [Option.map_some, Styles.rewritten]
    split
    · rfl
    · rename_i some
      have reads := attribute?_of_declarations (said ▸ some)
      rw [← said]
      exact reads.symm.trans hs

/-- An element that was given, in whatever document, the style that its attribute read has the style that it had. -/
theorem HasStyle.sameStyle {d' : Document} (hs : d'.HasStyle n (d.attribute? n "style")) (h : d.Worded n) :
    SameStyle n d d' :=
  ⟨hs.declarations.trans h.symm, hs.text.trans h.rewritten⟩

/-- Texts that are written anew in the same way stand for the same style. -/
theorem HasStyle.congr {style' : Option String} (h : d.HasStyle n style)
    (same : style.map Styles.rewritten = style'.map Styles.rewritten) : d.HasStyle n style' := by
  have read : ∀ style : Option String, style.map Styles.ofText = (style.map Styles.rewritten).map Styles.ofText := by
    intro style
    rw [Option.map_map]
    exact Option.map_congr fun s _ => (Styles.ofText_rewritten s).symm
  refine ⟨?_, h.text.trans same⟩
  rw [h.declarations, read, same, ← read]

end Document

/-- What an edit wrote as a text is what the text says. -/
theorem PageEdit.worded_apply {x : PageEdit} {n : NodeId} (hx : x.Words n) (d : Document) :
    (x.apply d).Worded n := by
  cases x with
  | setAttribute m name value =>
    obtain ⟨rfl, rfl⟩ := hx
    exact Document.worded_restyled d m (some value)
  | removeAttribute m name =>
    obtain ⟨rfl, rfl⟩ := hx
    exact Document.worded_restyled d m none
  | _ => exact hx.elim

end InPlace.Headless

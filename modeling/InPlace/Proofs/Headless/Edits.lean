import InPlace.Proofs.Headless.Parts

/-!
# Edits of a page

What a page does to its own document while an editor is at work in it. Each edit is a value, so that a run
can hold edits between the editor's operations. An edit that cannot be made leaves the document as it is.

Main statement: `PageEdit.apply_only` (an edit reaches the parts that it names).
-/

namespace InPlace.Headless

/-- An edit that a page makes to its document. -/
inductive PageEdit where
  | createElement (tag : String)
  | appendElement (parent : NodeId) (tag : String)
  | appendIdentified (parent : NodeId) (tag identity : String)
  | appendText (parent : NodeId) (s : String)
  | appendChild (parent child : NodeId)
  | remove (n : NodeId)
  | setTextContent (n : NodeId) (s : String)
  | setAttribute (n : NodeId) (name value : String)
  | removeAttribute (n : NodeId) (name : String)
  | setBodyAttribute (name : String) (value : Option String)
  | setStyle (n : NodeId) (property value : String)
  | setComputedStyle (n : NodeId) (property value : String)
  | addClass (n : NodeId) (name : String)
  | removeClass (n : NodeId) (name : String)
  | setRect (n : NodeId) (r : Rect)
  | setViewportWidth (width : Float)
  | setLocation (url : Option String)
  | focus (n : NodeId)
  | injectStylesheet (id css : String)
  | removeStylesheet (id : String)
  | setBodyCursor (cursor : Option String)
  | listen (l : DocumentEvent)
  | unlisten (l : DocumentEvent)
  | listenTo (n : NodeId) (l : ElementEvent)
  | unlistenTo (n : NodeId) (l : ElementEvent)

namespace PageEdit

/-- The document after a change, or as it was where the change fails. -/
def orSame (d : Document) : Except PageError Document → Document
  | .ok d' => d'
  | .error _ => d

/-- The document after an edit. -/
def apply (d : Document) : PageEdit → Document
  | createElement tag => d.createElement tag
  | appendElement parent tag => d.appendElement parent tag
  | appendIdentified parent tag identity => d.appendIdentified parent tag identity
  | appendText parent s => d.appendText parent s
  | appendChild parent child => d.appendChild parent child
  | remove n => (d.remove? n).getD d
  | setTextContent n s => d.setTextContent n s
  | setAttribute n name value => orSame d (d.setAttribute n name value)
  | removeAttribute n name => d.removeAttribute n name
  | setBodyAttribute name value => d.setBodyAttribute name value
  | setStyle n property value => orSame d (d.setStyle n property value)
  | setComputedStyle n property value => d.setComputedStyle n property value
  | addClass n name => orSame d (d.addClass n name)
  | removeClass n name => orSame d (d.removeClass n name)
  | setRect n r => d.setRect n r
  | setViewportWidth width => { d with viewportWidth := width }
  | setLocation url => { d with location := url }
  | focus n => orSame d (d.focus n)
  | injectStylesheet id css => d.injectStylesheet id css
  | removeStylesheet id => d.removeStylesheet id
  | setBodyCursor cursor => { d with bodyCursor := cursor }
  | listen l => d.listen l
  | unlisten l => d.unlisten l
  | listenTo n l => orSame d (d.listenTo n l)
  | unlistenTo n l => d.unlistenTo n l

/-- The parts of a document that an edit writes. -/
def parts : PageEdit → List Part
  | createElement _ | appendElement _ _ | appendText _ _ | appendChild _ _ | remove _
  | setTextContent _ _ => [.tree]
  | appendIdentified _ _ _ => [.tree, .attr identityAttribute]
  | setAttribute _ name _ | removeAttribute _ name | setBodyAttribute name _ => [.attr name]
  | setStyle _ _ _ => [.attr "style"]
  | addClass _ _ | removeClass _ _ => [.attr "class"]
  | setComputedStyle _ _ _ | setRect _ _ | setViewportWidth _ | setLocation _ | focus _ => []
  | injectStylesheet id _ | removeStylesheet id => [.stylesheet id]
  | setBodyCursor _ => [.bodyCursor]
  | listen _ | unlisten _ => [.documentListeners]
  | listenTo _ _ | unlistenTo _ _ => [.elementListeners]

/-- Whether an edit leaves parts of a document alone. -/
def Spares (x : PageEdit) (ps : List Part) : Prop :=
  ∀ p ∈ ps, p ∉ x.parts

instance (x : PageEdit) (ps : List Part) : Decidable (x.Spares ps) :=
  inferInstanceAs (Decidable (∀ p ∈ ps, p ∉ x.parts))

theorem orSame_only {ps : List Part} {d : Document} {r : Except PageError Document}
    (h : ∀ d', r = .ok d' → Document.Only ps d d') : Document.Only ps d (orSame d r) := by
  cases r with
  | ok d' => exact h d' rfl
  | error fault => exact .refl ps d

theorem remove_only (d : Document) (n : NodeId) :
    Document.Only [.tree] d ((d.remove? n).getD d) := by
  cases h : d.remove? n with
  | none => exact .refl _ d
  | some d' => exact Document.remove?_only h

/-- An edit reaches the parts that it names. -/
theorem apply_only (x : PageEdit) (d : Document) : Document.Only x.parts d (x.apply d) := by
  cases x with
  | createElement tag => exact Document.createElement_only d tag
  | appendElement parent tag => exact Document.appendElement_only d parent tag
  | appendIdentified parent tag identity => exact Document.appendIdentified_only d parent tag identity
  | appendText parent s => exact Document.appendText_only d parent s
  | appendChild parent child => exact Document.appendChild_only d parent child
  | remove n => exact remove_only d n
  | setTextContent n s => exact Document.setTextContent_only d n s
  | setAttribute n name value => exact orSame_only fun _ h => Document.setAttribute_only h
  | removeAttribute n name => exact Document.removeAttribute_only d n name
  | setBodyAttribute name value => exact Document.setBodyAttribute_only d name value
  | setStyle n property value => exact orSame_only fun _ h => Document.setStyle_only h
  | setComputedStyle n property value => exact Document.setComputedStyle_only d n property value
  | addClass n name => exact orSame_only fun _ h => Document.addClass_only h
  | removeClass n name => exact orSame_only fun _ h => Document.removeClass_only h
  | setRect n r => exact Document.setRect_only d n r
  | setViewportWidth width =>
    exact Document.only_of_nodes rfl (fun _ => rfl) (fun _ => rfl) (fun _ _ => rfl) fun _ => rfl
  | setLocation url =>
    exact Document.only_of_nodes rfl (fun _ => rfl) (fun _ => rfl) (fun _ _ => rfl) fun _ => rfl
  | focus n => exact orSame_only fun _ h => Document.focus_only h
  | injectStylesheet id css => exact Document.injectStylesheet_only d id css
  | removeStylesheet id => exact Document.removeStylesheet_only d id
  | setBodyCursor cursor => exact Document.bodyCursor_only d cursor
  | listen l => exact Document.listen_only d l
  | unlisten l => exact Document.unlisten_only d l
  | listenTo n l => exact orSame_only fun _ h => Document.listenTo_only h
  | unlistenTo n l => exact Document.unlistenTo_only d n l

end PageEdit

end InPlace.Headless

import InPlace.Proofs.Browser.Tidiness

/-!
# What happens in a page

Events arrive, messages are sent, the focus moves, and the page changes its document. Whatever the page does to its
document, the document stays one with the elements that it had. What else an editor relies on is that the page leaves an
attribute or the style sheets to it, or that the root element and the body stay (`Document.Spares`).

Main statement: `Mutation.addsNothing`.
-/

namespace InPlace.Browser

open Document

/-! ## What happens in a page -/

/-- A change that the page makes of its document. -/
inductive Mutation where
  | addElement (parent : NodeId) (e : Element)
  | addText (parent : NodeId) (s : String)
  | append (parent child : NodeId)
  | remove (n : NodeId)
  /-- Changes a text, or puts one in place of everything inside another node. -/
  | setText (n : NodeId) (s : String)
  | setAttribute (n : NodeId) (name : String) (value : Option String)
  | setComputedStyle (n : NodeId) (name value : String)
  | setRect (n : NodeId) (r : Rect)

namespace Mutation

/-- The document afterwards. A node that is not there, or is not of the right kind, is not changed. -/
def apply (m : Mutation) (d : Document) : Document :=
  match m with
  | addElement parent e =>
    if parent < d.nodes.fresh ∧ d.text? parent = none then d.pushUnder parent (.element e) else d
  | addText parent s =>
    if parent < d.nodes.fresh ∧ d.text? parent = none then d.pushUnder parent (.text s) else d
  | append parent child =>
    if parent < d.nodes.fresh ∧ d.text? parent = none ∧ child < d.nodes.fresh then d.append parent child else d
  | remove n => d.detach n
  | setText n s =>
    if (d.text? n).isSome then d.onNodes fun nodes => nodes.modifyContent n fun _ => .text s
    else if n < d.nodes.fresh then d.setTextContent n s
    else d
  | setAttribute n name value => d.setAttribute n name value
  | setComputedStyle n name value => d.setComputedStyle n name value
  | setRect n r => d.setRect n r

end Mutation

/-- Something that happens in a page from outside of its editors. -/
inductive Happening where
  | event (e : Event)
  | focus (n : NodeId)
  /-- The page begins to listen to events. -/
  | hook (place : Target) (type : String) (capture : Bool) (r : Reaction)
  /-- The page tells its editor that content has changed. -/
  | notify
  | mutation (m : Mutation)
  | resize (width : Option Float)

/-- What comes of it at once. -/
def happen (b : Browser) : Happening → Browser
  | .event e => (b.fire e).1
  | .focus n => if (b.document.element? n).isSome then b.moveFocus fire n else b
  | .hook place type capture r =>
    { b with reactions := b.reactions ++ [r] }.listen ⟨place, type, capture, .hook b.reactions.length⟩
  | .notify => b.notify fire
  | .mutation m => b.onDocument m.apply
  | .resize width => { b with window := { b.window with innerWidth := width } }

/-- Something happens, and then those that watch the document are told what became of it. -/
def goOn (b : Browser) (h : Happening) : Browser :=
  (b.happen h).tellObservers

/-- One thing happens after the other. -/
def goOnAll (b : Browser) (hs : List Happening) : Browser :=
  hs.foldl goOn b

/-- A change of the document leaves something to the editor. -/
def Document.Spares (d d' : Document) : Matter → Prop
  | .mark name => ∀ n, d.attribute? n name = none → d'.attribute? n name = none
  | .sheets => ∀ id ∈ ownIds, ∀ n, d'.Carries id n → d.Carries id n
  | .places => d'.root? = d.root? ∧ d'.body? = d.body?

/-- So does everything that the page does to its document. -/
def Reserved (b : Browser) (x : Matter) : List Happening → Prop
  | [] => True
  | h :: hs => (∀ m, h = .mutation m → b.document.Spares (m.apply b.document) x) ∧ (b.goOn h).Reserved x hs

/-! ## What a change of the page's own keeps -/

section

variable {C : Matter → Prop} {d d' : Document} {n : NodeId}

theorem Document.Rooted.modifyText (h : d.Rooted) {s : String} (hn : (d.text? n).isSome) :
    (d.onNodes fun nodes => nodes.modifyContent n fun _ => .text s).Rooted where
  top := by
    have other : n ≠ Document.top := by
      rintro rfl
      rw [text?, h.top] at hn
      cases hn
    show (d.nodes.modifyContent n _).content? Document.top = _
    rw [Forest.content?_modifyContent, if_neg other]
    exact h.top
  linked := h.linked.of_eq (fun m => Forest.parent?_modifyContent d.nodes n m _)
    fun m => Forest.children_modifyContent d.nodes n m _
  parents m p hp := by
    have hp : (d.nodes.modifyContent n _).parent? m = some p := hp
    rw [Forest.parent?_modifyContent] at hp
    show p < (d.nodes.modifyContent n _).fresh
    rw [Forest.fresh_modifyContent]
    exact h.parents m p hp

/-- Only the content of a text is changed. -/
theorem element?_modifyText {s : String} (hn : (d.text? n).isSome) (m : NodeId) :
    (d.onNodes fun nodes => nodes.modifyContent n fun _ => .text s).element? m = d.element? m := by
  show ((d.nodes.modifyContent n _).content? m).bind Content.element? = _
  rw [Forest.content?_modifyContent]
  split
  · rename_i same
    obtain ⟨t, ht⟩ := Option.isSome_iff_exists.1 (same ▸ hn)
    rw [element?, content?_of_text? ht]
    rfl
  · rfl

/-- Other nodes are not changed when one is made. -/
theorem element?_pushUnder (d : Document) (parent : NodeId) (c : Content) {m : NodeId} (hm : (d.element? m).isSome) :
    ((d.pushUnder parent c).element? m).isSome := by
  obtain ⟨e, he⟩ := Option.isSome_iff_exists.1 hm
  rw [element?, nodes_pushUnder, Forest.content?_pushUnder, if_neg (Nat.ne_of_lt (lt_fresh_of_element? he))]
  exact hm

/-- The document stays a document with the elements that it has, even if nothing is left to the editor. -/
theorem Mutation.keepsPlaces (m : Mutation) (hd : d.Rooted) : KeepsPlaces (fun _ => False) d (m.apply d) := by
  have kept : ∀ {d' : Document}, d'.Rooted → (∀ n, (d.element? n).isSome → (d'.element? n).isSome) →
      KeepsPlaces (fun _ => False) d d' := fun hr he => ⟨fun _ => hr, he, fun c => c.places.elim, fun c => c.places.elim⟩
  have same : KeepsPlaces (fun _ => False) d d := kept hd fun _ => id
  unfold Mutation.apply
  cases m with
  | addElement parent e =>
    dsimp only
    split
    · rename_i h
      exact kept (hd.pushUnder h.1 _) fun n => element?_pushUnder d parent _
    · exact same
  | addText parent s =>
    dsimp only
    split
    · rename_i h
      exact kept (hd.pushUnder h.1 _) fun n => element?_pushUnder d parent _
    · exact same
  | append parent child =>
    dsimp only
    split
    · rename_i h
      refine kept (hd.append h.1 (Forest.isSome_content?_iff.2 h.2.2)) fun n hn => ?_
      rw [element?, nodes_append, Forest.content?_append]
      exact hn
    · exact same
  | remove n => exact (addsNothing_detach d n fun c => c.places.elim).toKeepsPlaces
  | setText n s =>
    dsimp only
    split
    · rename_i h
      refine kept (hd.modifyText h) fun m hm => ?_
      rw [element?_modifyText h]
      exact hm
    · split
      · rename_i h
        exact (addsNothing_setTextContent hd h s fun c => c.places.elim).toKeepsPlaces
      · exact same
  | setAttribute n name value =>
    cases value with
    | none => exact keepsPlaces_modifyElement d n fun _ => ⟨rfl, rfl⟩
    | some value => exact keepsPlaces_modifyElement d n fun _ => ⟨rfl, rfl⟩
  | setComputedStyle n name value => exact keepsPlaces_modifyElement d n fun _ => ⟨rfl, rfl⟩
  | setRect n r => exact keepsPlaces_modifyElement d n fun _ => ⟨rfl, rfl⟩

/-- A change adds nothing to what it leaves to the editor that the editor would have to take away. -/
theorem Mutation.addsNothing (m : Mutation) (hd : d.Rooted) (h : ∀ x, C x → d.Spares (m.apply d) x) :
    AddsNothing C d (m.apply d) where
  rooted _ := (m.keepsPlaces hd).rooted hd
  elements := (m.keepsPlaces hd).elements
  root c _ := (h .places c.places).1
  body c _ := (h .places c.places).2
  marks name _ c := h (.mark name) c
  carries c _ := h .sheets c

end

end InPlace.Browser

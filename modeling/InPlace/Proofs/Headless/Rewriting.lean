import InPlace.Proofs.Headless.Declarations
import InPlace.Proofs.Page.Tables

/-!
# Elements that are rewritten

What a host asks for with a map of styles or with lists of class names is done to one element, in many small changes.
Each of them rewrites that element and counts a change; the tree, the other nodes and everything beside the nodes stay
as they are, and so they do after all of them (`Rewritten.trans`).

Main statements: `rewritten_setStyle`, `rewritten_setClasses` and `Rewritten.attribute?_of_ne`.
-/

namespace InPlace

namespace Forest

/-- A walk to the ancestors begins with the node itself. -/
theorem ancestors_eq_cons {α : Type} {f : Forest α} {n : NodeId} (h : n < f.fresh) :
    ∃ outer, f.ancestors n = n :: outer := by
  obtain ⟨k, hk⟩ := Nat.exists_eq_succ_of_ne_zero (Nat.ne_zero_of_lt h)
  show ∃ outer, f.ancestorsWithin f.fresh n = n :: outer
  rw [hk]
  cases hp : f.parent? n with
  | none => exact ⟨[], ancestorsWithin_of_free k hp⟩
  | some p => exact ⟨_, ancestorsWithin_of_parent? k hp⟩

end Forest

namespace Headless.Document

variable {d d' d'' : Document} {n m : NodeId} {f g : Element → Element}

/-- The second document differs from the first in one element, and in how often its content was changed. -/
structure Rewritten (n : NodeId) (f : Element → Element) (d d' : Document) : Prop where
  element? : d'.element? n = (d.element? n).map f
  content? : ∀ m, m ≠ n → d'.nodes.content? m = d.nodes.content? m
  fresh : d'.nodes.fresh = d.nodes.fresh
  parent? : ∀ m, d'.nodes.parent? m = d.nodes.parent? m
  children : ∀ m, d'.nodes.children m = d.nodes.children m
  /-- Style sheets, listeners, the focus and all else that is no node. -/
  rest : d' = { d with nodes := d'.nodes, contentMutations := d'.contentMutations }

namespace Rewritten

theorem refl (n : NodeId) (d : Document) : Rewritten n id d d :=
  ⟨by rw [Option.map_id, id], fun _ _ => rfl, rfl, fun _ => rfl, fun _ => rfl, rfl⟩

/-- Two rewritings of one element are one. -/
theorem trans (h : Rewritten n f d d') (h' : Rewritten n g d' d'') : Rewritten n (g ∘ f) d d'' where
  element? := by rw [h'.element?, h.element?, Option.map_map]
  content? m hm := (h'.content? m hm).trans (h.content? m hm)
  fresh := h'.fresh.trans h.fresh
  parent? m := (h'.parent? m).trans (h.parent? m)
  children m := (h'.children m).trans (h.children m)
  rest := by
    rw [h'.rest, h.rest]

theorem congr (h : Rewritten n f d d') (hfg : ∀ e, d.element? n = some e → f e = g e) : Rewritten n g d d' :=
  { h with element? := h.element?.trans (Option.map_congr fun e he => hfg e he) }

theorem isSome_element? (h : Rewritten n f d d') (hn : (d.element? n).isSome) : (d'.element? n).isSome := by
  rw [h.element?, Option.isSome_map]
  exact hn

theorem element?_of_ne (h : Rewritten n f d d') (hm : m ≠ n) : d'.element? m = d.element? m := by
  unfold Document.element?
  rw [h.content? m hm]

/-- The other elements have the attributes that they had. -/
theorem attribute?_of_ne (h : Rewritten n f d d') (hm : m ≠ n) (name : String) :
    d'.attribute? m name = d.attribute? m name := by
  rw [attribute?_eq, attribute?_eq, h.element?_of_ne hm]

/-- An attribute that is read off the element as before has the value that it had. -/
theorem attribute?_of_read {name : String} (h : Rewritten n f d d')
    (hf : ∀ e, readAttribute name (f e) = readAttribute name e) (m : NodeId) :
    d'.attribute? m name = d.attribute? m name := by
  by_cases hm : m = n
  · subst hm
    rw [attribute?_eq, attribute?_eq, h.element?, Option.bind_map]
    exact Option.bind_congr fun e _ => hf e
  · exact h.attribute?_of_ne hm name

theorem ancestors (h : Rewritten n f d d') (m : NodeId) : d'.nodes.ancestors m = d.nodes.ancestors m :=
  Forest.ancestors_congr h.fresh h.parent? m

end Rewritten

/-- A change of an element, counted as a change of content. -/
theorem rewritten_touch (d : Document) (n : NodeId) (f : Element → Element) :
    Rewritten n f d (d.modifyElement n f).touch where
  element? := (element?_modifyElement d n n f).trans (if_pos rfl)
  content? _ hm := (Forest.content?_modifyContent _ _ _ _).trans (if_neg (Ne.symm hm))
  fresh := Forest.fresh_modifyContent _ _ _
  parent? m := Forest.parent?_modifyContent _ _ m _
  children m := Forest.children_modifyContent _ _ m _
  rest := rfl

/-- A style property can be set on every element. -/
theorem rewritten_setStyle (h : (d.element? n).isSome) (property value : String) :
    ∃ d', d.setStyle n property value = .ok d' ∧
      Rewritten n (fun e => { e with styles := e.styles.put (Styles.propertyName property) value }) d d' := by
  obtain ⟨e, -, hd⟩ := ifElement_of_isSome h fun _ =>
    (d.modifyElement n fun e => { e with styles := e.styles.put (Styles.propertyName property) value }).touch
  exact ⟨_, hd, rewritten_touch d n _⟩

/-- The class names of a node, none of one that is no element. -/
def classNames (d : Document) (n : NodeId) : List String :=
  ((d.element? n).map classes).getD []

/-- The class names of an element are written anew, with one blank between two of them. -/
theorem rewritten_setClasses (d : Document) (n : NodeId) (names : List String) :
    Rewritten n (fun e => { e with attributes := e.attributes.put "class" (" ".intercalate names) }) d
      (d.setClasses n names) :=
  rewritten_touch d n _

/-! ## Values of properties -/

/-- A property that the inline style of an element gives a value has that value. -/
theorem computedStyle?_of_inlineStyle? {p v : String} (h : d.inlineStyle? n p = some v) :
    d.computedStyle? n p = some v := by
  unfold inlineStyle? declarations at h
  cases he : d.element? n with
  | none =>
    rw [he] at h
    cases h
  | some e =>
    rw [he, Option.map_some, Option.getD_some] at h
    unfold computedStyle?
    dsimp only
    split
    · rename_i white
      have own : d.ownWhiteSpace? n = some v := by
        unfold ownWhiteSpace?
        rw [he, Option.bind_some]
        rw [white] at h
        rw [h, Option.some_or, Option.some_or]
      obtain ⟨outer, walk⟩ := Forest.ancestors_eq_cons (Forest.lt_fresh_of_content? (content?_of_element? he))
      unfold whiteSpace
      rw [walk, List.findSome?_cons, own]
      rfl
    · rw [he, Option.bind_some, h, Option.some_or]

/-- A property whose inline value is the same has the same value, at every node. -/
theorem Rewritten.computedStyle? {p : String} (h : Rewritten n f d d') (htag : ∀ e, (f e).tag = e.tag)
    (hcomputed : ∀ e, (f e).computed = e.computed)
    (hstyles : ∀ e, d.element? n = some e →
      (f e).styles.get? (Styles.propertyName p) = e.styles.get? (Styles.propertyName p)) (m : NodeId) :
    d'.computedStyle? m p = d.computedStyle? m p := by
  have element : ∀ (m : NodeId) {β : Type} (r : Element → Option β),
      (∀ e, d.element? n = some e → r (f e) = r e) → (d'.element? m).bind r = (d.element? m).bind r := by
    intro m β r hr
    by_cases hm : m = n
    · subst hm
      rw [h.element?, Option.bind_map]
      exact Option.bind_congr hr
    · rw [h.element?_of_ne hm]
  unfold Document.computedStyle?
  dsimp only
  split
  · rename_i white
    have own : d'.ownWhiteSpace? = d.ownWhiteSpace? := by
      funext m
      refine element m _ fun e he => ?_
      rw [white] at hstyles
      rw [htag, hcomputed, hstyles e he]
    unfold whiteSpace
    rw [own, h.ancestors]
  · exact element m _ fun e he => by rw [hstyles e he, hcomputed]

end Headless.Document

end InPlace

import InPlace.Proofs.Headless.Parts

/-!
# Texts of elements

The text content of an element is read off the tree. After it was set, the element holds that text and nothing
else; this stays so when the tree stays the same, and when the element itself is taken out of the page.

Main statements: `textContent_of_sameTree` and `OnlyText.textContent`.
-/

namespace InPlace.Headless.Document

variable {d d' : Document} {n : NodeId} {s : String}

/-- An element with this text inside and nothing else. -/
structure OnlyText (d : Document) (n : NodeId) (s : String) : Prop where
  element : (d.element? n).isSome
  inside : (d.nodes.children n = [] ∧ s = "") ∨ ∃ c, d.nodes.children n = [c] ∧ d.text? c = some s

theorem content?_of_element? {e : Element} (h : d.element? n = some e) :
    d.nodes.content? n = some (.element e) := by
  obtain ⟨c, hc, he⟩ := Option.bind_eq_some_iff.1 h
  cases c with
  | element e' =>
    cases he
    exact hc
  | text s => simp [Content.element?] at he

theorem content?_of_text? (h : d.text? n = some s) : d.nodes.content? n = some (.text s) := by
  obtain ⟨c, hc, ht⟩ := Option.bind_eq_some_iff.1 h
  cases c with
  | element e => simp [Content.text?] at ht
  | text s' =>
    cases ht
    exact hc

/-- Two different numbers are below numbers from two upwards only. -/
theorem exists_eq_add_two {a b k : Nat} (ha : a < k) (hb : b < k) (h : a ≠ b) : ∃ j, k = j + 2 :=
  ⟨k - 2, by omega⟩

/-- The element with one text has that text as its content. -/
theorem OnlyText.textContent (h : OnlyText d n s) : d.textContent n = s := by
  obtain ⟨e, he⟩ := Option.isSome_iff_exists.1 h.element
  have hn := content?_of_element? he
  have own : d.text? n = none := by simp [text?, hn, Content.text?]
  have hlt := Forest.lt_fresh_of_content? hn
  unfold Document.textContent preorder Forest.preorder
  rcases h.inside with ⟨hc, rfl⟩ | ⟨c, hc, ht⟩
  · obtain ⟨k, hk⟩ := Nat.exists_eq_succ_of_ne_zero (Nat.ne_of_gt (Nat.zero_lt_of_lt hlt))
    rw [show d.nodes.cells.size = k + 1 from hk]
    simp [Forest.preorderWithin, hn, Content.isElement, Content.element?, hc, own]
  · have hcc := content?_of_text? ht
    have hne : n ≠ c := by
      intro heq
      rw [heq, hcc] at hn
      cases hn
    obtain ⟨k, hk⟩ := exists_eq_add_two hlt (Forest.lt_fresh_of_content? hcc) hne
    rw [show d.nodes.cells.size = k + 2 from hk]
    simp [Forest.preorderWithin, hn, hcc, Content.isElement, Content.element?, hc, own, ht]

/-- The same tree has the same text contents. -/
theorem textContent_of_sameTree (h : d.SameTree d') (n : NodeId) :
    d'.textContent n = d.textContent n := by
  have inner : ∀ n, (d'.nodes.content? n).any Content.isElement =
      (d.nodes.content? n).any Content.isElement := by
    intro n
    have tags := congrArg Option.isSome (h.tag? n)
    have looked : ∀ d : Document, (d.nodes.content? n).any Content.isElement =
        ((d.element? n).map Element.tag).isSome := by
      intro d
      unfold element?
      cases d.nodes.content? n with
      | none => rfl
      | some c => cases c <;> rfl
    rw [looked, looked, tags]
  -- the walk asks which nodes are elements and what their children are, and nothing else
  have walked : d'.preorder n = d.preorder n := by
    unfold preorder Forest.preorder
    rw [show d'.nodes.cells.size = d.nodes.cells.size from h.fresh]
    exact Forest.preorderWithin_congr inner h.children _ n
  have texts : d'.text? = d.text? := funext h.text?
  unfold Document.textContent
  rw [walked, texts]

/-- The same tree has the same elements. -/
theorem SameTree.isSome_element? (h : d.SameTree d') (n : NodeId) :
    (d'.element? n).isSome = (d.element? n).isSome := by
  have tags := congrArg Option.isSome (h.tag? n)
  rwa [Option.isSome_map, Option.isSome_map] at tags

theorem OnlyText.of_sameTree (o : OnlyText d n s) (h : d.SameTree d') : OnlyText d' n s where
  element := (h.isSome_element? n).trans o.element
  inside := by
    rcases o.inside with ⟨hc, hs⟩ | ⟨c, hc, ht⟩
    · exact .inl ⟨(h.children n).trans hc, hs⟩
    · exact .inr ⟨c, (h.children n).trans hc, (h.text? c).trans ht⟩

/-- An element whose text content was set holds that text only. -/
theorem onlyText_setTextContent (h : (d.element? n).isSome) (s : String) :
    OnlyText (d.setTextContent n s) n s := by
  refine ⟨(setTextContent_only d n s).elements n h, ?_⟩
  obtain ⟨e, he⟩ := Option.isSome_iff_exists.1 h
  have hlt : n < (d.nodes.clear n).fresh := by
    rw [Forest.fresh_clear]
    exact Forest.lt_fresh_of_content? (content?_of_element? he)
  have emptied := Forest.children_clear_self d.nodes n
  unfold setTextContent
  dsimp only
  split
  · rename_i hs
    exact .inl ⟨emptied, String.isEmpty_iff.1 hs⟩
  · refine .inr ⟨(d.nodes.clear n).fresh, ?_, ?_⟩
    · have grown := Forest.children_pushUnder_self (Content.text s) hlt
      rw [emptied] at grown
      exact grown
    · show (((d.nodes.clear n).pushUnder n (.text s)).content? _).bind Content.text? = _
      rw [Forest.content?_pushUnder, if_pos rfl]
      rfl

/-- The text inside an element goes with the element. -/
theorem OnlyText.remove? (o : OnlyText d n s) (h : d.remove? n = some d') : OnlyText d' n s := by
  refine ⟨(remove?_only h).elements n o.element, ?_⟩
  have nodes : d'.nodes = d.nodes.detach n := by
    unfold Document.remove? at h
    split at h
    · simp at h
    · cases Option.some.inj h
      split <;> rfl
  have texts : ∀ c, d'.text? c = d.text? c := by
    intro c
    unfold text?
    rw [nodes, Forest.content?_detach]
  obtain ⟨e, he⟩ := Option.isSome_iff_exists.1 o.element
  rw [nodes]
  rcases o.inside with ⟨hc, hs⟩ | ⟨c, hc, ht⟩
  · refine .inl ⟨?_, hs⟩
    rcases Forest.children_detach_self d.nodes n with hd | hd
    · rw [hd, hc]
    · rw [hd, hc]
      rfl
  · refine .inr ⟨c, ?_, (texts c).trans ht⟩
    have hne : c ≠ n := by
      intro heq
      have hn := content?_of_element? he
      rw [← heq, content?_of_text? ht] at hn
      cases hn
    rcases Forest.children_detach_self d.nodes n with hd | hd
    · rw [hd, hc]
    · rw [hd, hc]
      simp [hne]

end InPlace.Headless.Document

import InPlace.Proofs.Browser.Documents
import Mathlib.Data.List.Find

/-!
# Style sheets that come and go

What the editor adds to a document is style elements at the end of the head, and marks on the body. `Dressed` says that
one document is another one with such style elements, and with a body that differs in its cursor and in the mark of the
saving mode only. A style sheet that is put in comes last (`Dressed.injectStylesheet`), and one that is removed leaves
what there was without it (`Dressed.removeStylesheet`).

Main statements: `Dressed.injectStylesheet`, `Dressed.removeStylesheet` and `Dressed.modifyBody`.
-/

namespace InPlace.Browser

/-- An element with the same attributes, but for its inline style and the mark of the saving mode, and with the same
declarations, but for the cursor. Its inline style is as it was, or it has been written anew from declarations that are
the same but for the cursor. -/
structure Element.Restyled (e e' : Element) : Prop where
  tag : e'.tag = e.tag
  isForeign : e'.isForeign = e.isForeign
  computed : e'.computed = e.computed
  rect : e'.rect = e.rect
  attributes : ∀ name, name ≠ "style" → name ≠ Overlay.savingAttribute →
    e'.attributes.get? name = e.attributes.get? name
  declarations : e'.declarations.drop "cursor" = e.declarations.drop "cursor"
  style : e'.attributes.get? "style" = e.attributes.get? "style" ∨
    ∃ ds : Table, ds.drop "cursor" = e.declarations.drop "cursor" ∧ e'.attributes.get? "style" = some (Styles.text ds)

namespace Element

variable {e e' e'' : Element}

theorem Restyled.refl (e : Element) : e.Restyled e :=
  ⟨rfl, rfl, rfl, rfl, fun _ _ _ => rfl, rfl, .inl rfl⟩

theorem Restyled.trans (h : e.Restyled e') (h' : e'.Restyled e'') : e.Restyled e'' where
  tag := h'.tag.trans h.tag
  isForeign := h'.isForeign.trans h.isForeign
  computed := h'.computed.trans h.computed
  rect := h'.rect.trans h.rect
  attributes name hs hn := (h'.attributes name hs hn).trans (h.attributes name hs hn)
  declarations := h'.declarations.trans h.declarations
  style := by
    rcases h'.style with same | ⟨ds, others, written⟩
    · rw [same]
      exact h.style
    · exact .inr ⟨ds, others.trans h.declarations, written⟩

/-- Writing the inline style changes nothing else of an element. -/
theorem restyled_setDeclarations (e : Element) {ds : Table} (hds : ds.drop "cursor" = e.declarations.drop "cursor")
    (h : (e.setDeclarations ds).declarations.drop "cursor" = e.declarations.drop "cursor") :
    e.Restyled (e.setDeclarations ds) :=
  ⟨rfl, rfl, rfl, rfl, fun _ hs _ => get?_setDeclarations e ds hs, h, .inr ⟨ds, hds, style_setDeclarations e ds⟩⟩

/-- Without its cursor an element is restyled and nothing else. -/
theorem restyled_dropCursor (e : Element) : e.Restyled (e.dropDeclaration "cursor") := by
  have twice : Table.drop "cursor" (e.declarations.drop "cursor") = e.declarations.drop "cursor" :=
    List.filter_filter.trans (by simp [Table.drop])
  have declarations : (e.dropDeclaration "cursor").declarations.drop "cursor" = e.declarations.drop "cursor" := by
    rw [e.declarations_dropDeclaration "cursor"]
    exact twice
  unfold dropDeclaration at declarations ⊢
  split at declarations
  · exact restyled_setDeclarations e twice declarations
  · exact .refl e

/-- With another cursor an element is restyled and nothing else. -/
theorem restyled_putCursor (e : Element) {cursor : String} (h : ';' ∉ cursor.toList) :
    e.Restyled (e.putDeclaration "cursor" cursor) := by
  have single : Styles.Single ("cursor", cursor) :=
    ⟨Text.trim_eq_self_iff.1 (show Text.trim "cursor" = "cursor" by decide), show "cursor" ≠ "" by decide,
      show ∀ c ∈ "cursor".toList, c ≠ ':' ∧ c ≠ ';' by simp, h⟩
  have declarations := drop_declarations_putDeclaration e single
  unfold putDeclaration at declarations ⊢
  by_cases hc : cursor.isEmpty = true
  · rw [if_pos hc]
    exact e.restyled_dropCursor
  · rw [if_neg hc] at declarations ⊢
    exact restyled_setDeclarations e (Table.drop_put _ _ _ e.nodup_declarations) declarations

/-- The mark of the saving mode is an attribute of its own. -/
theorem restyled_of_saving (e : Element) {attributes : Table}
    (h : ∀ name, name ≠ Overlay.savingAttribute → attributes.get? name = e.attributes.get? name) :
    e.Restyled { e with attributes } := by
  have style := h "style" (by decide)
  refine ⟨rfl, rfl, rfl, rfl, fun name _ hn => h name hn, ?_, .inl style⟩
  exact congrArg (Table.drop "cursor") (by rw [declarations_eq, declarations_eq, style])

end Element

namespace Document

variable {d d' d'' : Document} {n m s : NodeId} {id : String} {sheets : List (NodeId × String)}

/-! ## The root element and its children -/

theorem inner_of_element? {e : Element} (h : d.element? n = some e) :
    (d.nodes.content? n).any Content.isInner = true := by
  obtain ⟨c, hc, he⟩ := Option.bind_eq_some_iff.1 h
  rw [hc]
  cases c with
  | element e => rfl
  | document => cases he
  | text s => cases he

theorem root?_eq_some {root : NodeId} (h : d.root? = some root) :
    root ∈ d.nodes.children top ∧ (d.element? root).isSome :=
  ⟨List.mem_of_find?_eq_some h, List.find?_some (p := fun n => (d.element? n).isSome) h⟩

/-- The head and the body are children of the root, with their tags. -/
theorem childOfRoot?_eq_some {tag : String} (h : d.childOfRoot? tag = some n) :
    ∃ root e, d.root? = some root ∧ n ∈ d.nodes.children root ∧ d.element? n = some e ∧ e.tag = tag := by
  obtain ⟨root, hroot, hfind⟩ := Option.bind_eq_some_iff.1 h
  have tagged := List.find?_some (p := fun n => (d.element? n).any fun e => !e.isForeign && e.tag == tag) hfind
  obtain ⟨e, he, hsame⟩ := (Option.any_eq_true _ _).1 tagged
  have same : e.tag = tag := by
    have both := (Bool.and_eq_true _ _).mp hsame
    simpa using both.2
  exact ⟨root, e, hroot, List.mem_of_find?_eq_some hfind, he, same⟩

/-- The head and the body are elements. -/
theorem isSome_element?_of_childOfRoot? {tag : String} (h : d.childOfRoot? tag = some n) : (d.element? n).isSome := by
  obtain ⟨-, e, -, -, he, -⟩ := childOfRoot?_eq_some h
  exact Option.isSome_of_eq_some he

theorem lt_fresh_of_childOfRoot? {tag : String} (h : d.childOfRoot? tag = some n) : n < d.nodes.fresh := by
  obtain ⟨e, he⟩ := Option.isSome_iff_exists.1 (isSome_element?_of_childOfRoot? h)
  exact lt_fresh_of_element? he

theorem childOfRoot?_ne_of_element?_eq_none {tag : String} (he : d.element? n = none) :
    d.childOfRoot? tag ≠ some n := by
  intro h
  have element := isSome_element?_of_childOfRoot? h
  rw [he] at element
  cases element

/-- Documents with the same elements in the first place have the same root element. -/
theorem root?_congr (htop : d'.nodes.children top = d.nodes.children top)
    (hsome : ∀ n ∈ d.nodes.children top, (d'.element? n).isSome = (d.element? n).isSome) : d'.root? = d.root? := by
  unfold root?
  rw [htop]
  exact List.find?_congr hsome

/-- Documents with the same elements below the root element have the same head and the same body. -/
theorem childOfRoot?_congr {tag : String} (htop : d'.nodes.children top = d.nodes.children top)
    (hroot : ∀ root, d.root? = some root → d'.nodes.children root = d.nodes.children root)
    (hsome : ∀ n ∈ d.nodes.children top, (d'.element? n).isSome = (d.element? n).isSome)
    (hkind : ∀ root, d.root? = some root → ∀ n ∈ d.nodes.children root,
      (d'.element? n).map (fun e => (e.isForeign, e.tag)) = (d.element? n).map fun e => (e.isForeign, e.tag)) :
    d'.childOfRoot? tag = d.childOfRoot? tag := by
  unfold childOfRoot?
  rw [root?_congr htop hsome]
  refine Option.bind_congr fun root hr => ?_
  rw [hroot root hr]
  refine List.find?_congr fun n hn => ?_
  have kind := hkind root hr n hn
  cases hd : d.element? n with
  | none =>
    rw [hd] at kind
    rw [Option.map_eq_none_iff.1 kind]
  | some e =>
    rw [hd] at kind
    obtain ⟨e', he', hsame⟩ := Option.map_eq_some_iff.1 kind
    obtain ⟨foreign, tagged⟩ := Prod.mk.inj hsame
    rw [he', Option.any_some, Option.any_some, foreign, tagged]

/-- The head is no ancestor of itself, so it is not the root element; nor is it the document. -/
theorem Rooted.head_ne_root (h : d.Rooted) {head root : NodeId} (hh : d.head? = some head)
    (hr : d.root? = some root) : head ≠ root := by
  obtain ⟨root', e, hroot', hin, he, -⟩ := childOfRoot?_eq_some hh
  rw [hr] at hroot'
  cases hroot'
  obtain ⟨hroot, -⟩ := root?_eq_some hr
  rintro rfl
  have above := h.linked head head hin
  rw [h.linked Document.top head hroot] at above
  cases above
  rw [h.element?_top] at he
  cases he

theorem Rooted.head_ne_top (h : d.Rooted) {head : NodeId} (hh : d.head? = some head) : head ≠ Document.top := by
  rintro rfl
  exact childOfRoot?_ne_of_element?_eq_none h.element?_top hh

/-- Every child of the head is in the document. -/
theorem Rooted.mem_preorder_of_head (h : d.Rooted) {head : NodeId} (hh : d.head? = some head)
    (hn : n ∈ d.nodes.children head) : n ∈ d.preorder Document.top := by
  obtain ⟨root, e, hr, hin, he, -⟩ := childOfRoot?_eq_some hh
  obtain ⟨hroot, hsome⟩ := root?_eq_some hr
  obtain ⟨r, hr'⟩ := Option.isSome_iff_exists.1 hsome
  have inner : (d.nodes.content? Document.top).any Content.isInner = true := by
    rw [h.top]
    rfl
  have found : n ∈ d.nodes.preorderWithin Content.isInner 4 Document.top :=
    Forest.mem_preorderWithin_succ.2 (.inr ⟨inner, root, hroot,
      Forest.mem_preorderWithin_succ.2 (.inr ⟨inner_of_element? hr', head, hin,
        Forest.mem_preorderWithin_succ.2 (.inr ⟨inner_of_element? he, n, hn,
          Forest.mem_preorderWithin_self d.nodes Content.isInner 0 n⟩)⟩)⟩)
  exact h.mem_preorder found

/-! ## Documents with more style sheets -/

/-- The document `d'` is `d` with style elements at the end of its head, given by their nodes and ids, and with a body
that is restyled. -/
structure Dressed (d d' : Document) (sheets : List (NodeId × String)) : Prop where
  rooted : d'.Rooted
  fresh : d.nodes.fresh ≤ d'.nodes.fresh
  content : ∀ n < d.nodes.fresh, d.body? ≠ some n → d'.nodes.content? n = d.nodes.content? n
  body : ∀ n e, d.body? = some n → d.element? n = some e → ∃ e', d'.element? n = some e' ∧ e.Restyled e'
  parent : ∀ n < d.nodes.fresh, d'.nodes.parent? n = d.nodes.parent? n
  children : ∀ n < d.nodes.fresh, d'.nodes.children n =
    d.nodes.children n ++ if d.head? = some n then sheets.map Prod.fst else []
  focused : d'.focused = d.focused
  head : sheets ≠ [] → (d.head?).isSome
  isNew : ∀ s ∈ sheets, d.nodes.fresh ≤ s.1
  named : ∀ s ∈ sheets, d'.attribute? s.1 "id" = some s.2
  /-- There is nothing but text in a style element. -/
  texts : ∀ s ∈ sheets, ∀ c ∈ d'.nodes.children s.1, (d'.nodes.content? c).any Content.isInner = false

/-- A document is dressed in no sheets. -/
theorem Dressed.refl (h : d.Rooted) : d.Dressed d [] where
  rooted := h
  fresh := Nat.le_refl _
  content _ _ _ := rfl
  body _ e _ he := ⟨e, he, .refl e⟩
  parent _ _ := rfl
  children n _ := by simp
  focused := rfl
  head hne := absurd rfl hne
  isNew s hs := by cases hs
  named s hs := by cases hs
  texts s hs := by cases hs

/-- An element that is in both documents is the same, or the body. -/
theorem Dressed.element (h : d.Dressed d' sheets) {e : Element} (he : d.element? n = some e) :
    ∃ e', d'.element? n = some e' ∧ e.Restyled e' := by
  by_cases hb : d.body? = some n
  · exact h.body n e hb he
  · refine ⟨e, ?_, .refl e⟩
    rw [element?, h.content n (lt_fresh_of_element? he) hb]
    exact he

/-- What is no element is none in either document. -/
theorem Dressed.element?_eq_none (h : d.Dressed d' sheets) (hn : n < d.nodes.fresh) (he : d.element? n = none) :
    d'.element? n = none := by
  rw [element?, h.content n hn (childOfRoot?_ne_of_element?_eq_none he)]
  exact he

/-- In a dressed document the old elements are of the kinds that they were. -/
theorem Dressed.kind (h : d.Dressed d' sheets) (hn : n < d.nodes.fresh) :
    (d'.element? n).map (fun e => (e.isForeign, e.tag)) = (d.element? n).map fun e => (e.isForeign, e.tag) := by
  cases he : d.element? n with
  | none => rw [h.element?_eq_none hn he]
  | some e =>
    obtain ⟨e', he', same⟩ := h.element he
    rw [he', Option.map_some, Option.map_some, same.tag, same.isForeign]

theorem Dressed.children_top (h : d.Dressed d' sheets) (hd : d.Rooted) :
    d'.nodes.children top = d.nodes.children top := by
  rw [h.children _ hd.top_lt_fresh, if_neg fun hh => hd.head_ne_top hh rfl, List.append_nil]

theorem Dressed.isSome_child (h : d.Dressed d' sheets) (hd : d.Rooted) (hn : n ∈ d.nodes.children m) :
    (d'.element? n).isSome = (d.element? n).isSome := by
  have kind := congrArg Option.isSome (h.kind (hd.linked.lt_fresh hn))
  rw [Option.isSome_map, Option.isSome_map] at kind
  exact kind

theorem Dressed.root? (h : d.Dressed d' sheets) (hd : d.Rooted) : d'.root? = d.root? :=
  root?_congr (h.children_top hd) fun _ hn => h.isSome_child hd hn

/-- In a dressed document the head and the body are those that they were. -/
theorem Dressed.childOfRoot? (h : d.Dressed d' sheets) (hd : d.Rooted) (tag : String) :
    d'.childOfRoot? tag = d.childOfRoot? tag := by
  refine childOfRoot?_congr (h.children_top hd) (fun root hr => ?_) (fun n hn => h.isSome_child hd hn)
    fun root hr n hn => h.kind (hd.linked.lt_fresh hn)
  rw [h.children _ (hd.linked.lt_fresh (root?_eq_some hr).1), if_neg fun hh => hd.head_ne_root hh hr rfl,
    List.append_nil]

theorem Dressed.head? (h : d.Dressed d' sheets) (hd : d.Rooted) : d'.head? = d.head? :=
  h.childOfRoot? hd "head"

theorem Dressed.body? (h : d.Dressed d' sheets) (hd : d.Rooted) : d'.body? = d.body? :=
  h.childOfRoot? hd "body"

/-- In a style sheet there are its texts and nothing else. -/
theorem Dressed.mem_preorderWithin_sheet (h : d.Dressed d' sheets) {k : Nat} {sheet : NodeId × String}
    (hs : sheet ∈ sheets) (hm : m ∈ d'.nodes.preorderWithin Content.isInner k sheet.1) :
    m = sheet.1 ∨ m ∈ d'.nodes.children sheet.1 := by
  cases k with
  | zero => cases hm
  | succ k =>
    rcases Forest.mem_preorderWithin_succ.1 hm with same | ⟨-, t, ht, hm⟩
    · exact .inl same
    · rw [Forest.eq_of_mem_preorderWithin (h.texts sheet hs t ht) hm]
      exact .inr ht

/-- Whoever walks down a dressed document comes to nodes that were there, to style sheets and to their texts. -/
theorem Dressed.mem_preorderWithin (h : d.Dressed d' sheets) (hd : d.Rooted) {k : Nat} (hn : n < d.nodes.fresh)
    (hm : m ∈ d'.nodes.preorderWithin Content.isInner k n) :
    (m < d.nodes.fresh ∧ m ∈ d.nodes.preorderWithin Content.isInner k n) ∨ m ∈ sheets.map Prod.fst ∨
      ∃ s ∈ sheets, m ∈ d'.nodes.children s.1 := by
  induction k generalizing n with
  | zero => cases hm
  | succ k ih =>
    rcases Forest.mem_preorderWithin_succ.1 hm with rfl | ⟨inner, c, hc, hm⟩
    · exact .inl ⟨hn, Forest.mem_preorderWithin_self _ _ k m⟩
    · rw [h.children n hn] at hc
      rcases List.mem_append.1 hc with old | new
      · refine (ih (hd.linked.lt_fresh old) hm).imp_left fun ⟨hlt, found⟩ => ⟨hlt, ?_⟩
        refine Forest.mem_preorderWithin_succ.2 (.inr ⟨?_, c, old, found⟩)
        cases he : d.element? n with
        | some e => exact inner_of_element? he
        | none =>
          rw [← h.content n hn (childOfRoot?_ne_of_element?_eq_none he)]
          exact inner
      · split at new
        · obtain ⟨s, hs, rfl⟩ := List.mem_map.1 new
          rcases h.mem_preorderWithin_sheet hs hm with rfl | text
          · exact .inr (.inl (List.mem_map_of_mem hs))
          · exact .inr (.inr ⟨s, hs, text⟩)
        · cases new

/-- What carries an id in a dressed document carried it before, or is a style sheet with it. -/
theorem Dressed.carries (h : d.Dressed d' sheets) (hd : d.Rooted) (hm : d'.Carries id m) :
    d.Carries id m ∨ (m, id) ∈ sheets := by
  obtain ⟨e', he', -⟩ := Option.bind_eq_some_iff.1 hm.2
  -- what is reached is old, a style sheet, or a text inside of one
  rcases h.mem_preorderWithin hd hd.top_lt_fresh hm.1 with ⟨hlt, found⟩ | new | ⟨s, hs, inside⟩
  · refine .inl ⟨hd.mem_preorder found, ?_⟩
    cases he : d.element? m with
    | none =>
      rw [h.element?_eq_none hlt he] at he'
      cases he'
    | some e =>
      obtain ⟨e'', he'', same⟩ := h.element he
      have id' := hm.2
      rw [attribute?, he'', Option.bind_some, same.attributes "id" (by decide) (by decide)] at id'
      rw [attribute?, he]
      exact id'
  · obtain ⟨s, hs, rfl⟩ := List.mem_map.1 new
    have same := (h.named s hs).symm.trans hm.2
    cases same
    exact .inr hs
  · have text := h.texts s hs m inside
    rw [inner_of_element? he'] at text
    cases text

theorem Dressed.sheet_lt_fresh (h : d.Dressed d' sheets) {sheet : NodeId × String} (hs : sheet ∈ sheets) :
    sheet.1 < d'.nodes.fresh := by
  obtain ⟨e, he, -⟩ := Option.bind_eq_some_iff.1 (h.named sheet hs)
  exact lt_fresh_of_element? he

/-- A style sheet is in the document, and carries its id. -/
theorem Dressed.carries_sheet (h : d.Dressed d' sheets) (hd : d.Rooted) {sheet : NodeId × String}
    (hs : sheet ∈ sheets) : d'.Carries sheet.2 sheet.1 := by
  obtain ⟨head, hh⟩ := Option.isSome_iff_exists.1 (h.head (List.ne_nil_of_mem hs))
  have child : sheet.1 ∈ d'.nodes.children head := by
    rw [h.children head (lt_fresh_of_childOfRoot? hh), if_pos hh]
    exact List.mem_append_right _ (List.mem_map_of_mem hs)
  exact ⟨h.rooted.mem_preorder_of_head ((h.head? hd).trans hh) child, h.named sheet hs⟩

/-- What was there is not inside of what is new. -/
theorem Dressed.not_mem_ancestors (h : d.Dressed d' sheets) (hd : d.Rooted) (hm : d.nodes.fresh ≤ m)
    (hn : n < d.nodes.fresh) : m ∉ d'.nodes.ancestors n := by
  intro above
  have old : m < d.nodes.fresh :=
    Forest.of_mem_ancestorsWithin (P := (· < d.nodes.fresh))
      (fun n p hn hp => hd.parents n p ((h.parent n hn).symm.trans hp)) hn above
  exact Nat.not_lt.2 hm old

/-- An id that is that of no sheet is carried by none in a dressed document, if it was before. -/
theorem Dressed.byId?_eq_none (h : d.Dressed d' sheets) (hd : d.Rooted) (hid : d.byId? id = none)
    (hs : id ∉ sheets.map Prod.snd) : d'.byId? id = none := by
  rw [byId?_eq_none_iff]
  intro m hm
  rcases h.carries hd hm with old | new
  · exact byId?_eq_none_iff.1 hid m old
  · exact hs (List.mem_map.2 ⟨(m, id), new, rfl⟩)

/-! ## What the editor does to a document -/

/-- The body may be restyled. -/
theorem Dressed.modifyBody (h : d.Dressed d' sheets) (hd : d.Rooted) {body : NodeId} (hb : d'.body? = some body)
    {f : Element → Element} (hf : ∀ e : Element, e.Restyled (f e)) : d.Dressed (d'.modifyElement body f) sheets := by
  have hbody : d.body? = some body := (h.body? hd).symm.trans hb
  have old := lt_fresh_of_childOfRoot? hbody
  have others : ∀ n, n ≠ body → (d'.modifyElement body f).nodes.content? n = d'.nodes.content? n := by
    intro n hn
    rw [nodes_modifyElement, Forest.content?_modifyContent, if_neg (Ne.symm hn)]
  have inner : ∀ n, ((d'.modifyElement body f).nodes.content? n).any Content.isInner =
      (d'.nodes.content? n).any Content.isInner :=
    fun n => isInner_modifyElement d' body n f
  refine
    { rooted := h.rooted.modifyElement body f
      fresh := ?_, content := ?_, body := ?_, parent := ?_, children := ?_
      focused := h.focused, head := h.head, isNew := h.isNew, named := ?_, texts := ?_ }
  · rw [nodes_modifyElement, Forest.fresh_modifyContent]
    exact h.fresh
  · intro n hn hne
    rw [others n fun hnb => hne (hnb ▸ hbody)]
    exact h.content n hn hne
  · intro n e hn he
    rw [hbody] at hn
    cases hn
    obtain ⟨e', he', same⟩ := h.body body e hbody he
    refine ⟨f e', ?_, same.trans (hf e')⟩
    rw [element?_modifyElement, if_pos rfl, he']
    rfl
  · intro n hn
    rw [nodes_modifyElement, Forest.parent?_modifyContent]
    exact h.parent n hn
  · intro n hn
    rw [nodes_modifyElement, Forest.children_modifyContent]
    exact h.children n hn
  · intro s hs
    have other : s.1 ≠ body := fun hsb => Nat.not_lt.2 (h.isNew s hs) (hsb ▸ old)
    rw [attribute?, element?, others s.1 other]
    exact h.named s hs
  · intro s hs c hc
    rw [nodes_modifyElement, Forest.children_modifyContent] at hc
    rw [inner]
    exact h.texts s hs c hc

/-- Setting the cursor or the mark of the saving mode restyles the body. -/
theorem Dressed.setBodyCursor (h : d.Dressed d' sheets) (hd : d.Rooted) {cursor : Option String}
    (hc : ';' ∉ (cursor.getD "").toList) : d.Dressed (d'.setBodyCursor cursor) sheets := by
  unfold Document.setBodyCursor
  split
  · exact h
  · rename_i body hb
    exact h.modifyBody hd hb fun e => e.restyled_putCursor hc

/-- A document stays dressed when the mark for saving is set or removed. -/
theorem Dressed.setSaving (h : d.Dressed d' sheets) (hd : d.Rooted) (value : Option String) :
    d.Dressed (d'.setBodyAttribute Overlay.savingAttribute value) sheets := by
  unfold Document.setBodyAttribute
  split
  · exact h
  · rename_i body hb
    cases value with
    | some v =>
      refine h.modifyBody hd hb fun e => e.restyled_of_saving fun name hn => ?_
      rw [Table.get?_put, if_neg (Ne.symm hn)]
    | none =>
      refine h.modifyBody hd hb fun e => e.restyled_of_saving fun name hn => ?_
      rw [Table.get?_drop, if_neg (Ne.symm hn)]

/-- The document with a new style element, which is not in it yet. -/
def withStyle (d : Document) (id : String) : Document :=
  d.onNodes fun nodes => nodes.push (.element { tag := "style", attributes := [("id", id)] })

/-- A style sheet is injected at the end of the head, as a new element with a text. -/
theorem injectStylesheet_eq_ok {css : String} (h : d.injectStylesheet id css = .ok d') :
    ∃ head, d.head? = some head ∧
      d' = ((d.withStyle id).setTextContent d.nodes.fresh css).append head d.nodes.fresh := by
  unfold injectStylesheet at h
  split at h
  · cases h
  · rename_i head hh
    exact ⟨head, hh, (Except.ok.inj h).symm⟩

/-- A style element was made and is not in the document yet. -/
structure Made (d d' : Document) (id : String) : Prop where
  rooted : d'.Rooted
  fresh : d.nodes.fresh < d'.nodes.fresh
  content : ∀ n < d.nodes.fresh, d'.nodes.content? n = d.nodes.content? n
  parent : ∀ n < d.nodes.fresh, d'.nodes.parent? n = d.nodes.parent? n
  children : ∀ n < d.nodes.fresh, d'.nodes.children n = d.nodes.children n
  focused : d'.focused = d.focused
  style : d'.element? d.nodes.fresh = some { tag := "style", attributes := [("id", id)] }
  free : d'.nodes.parent? d.nodes.fresh = none
  texts : ∀ c ∈ d'.nodes.children d.nodes.fresh, (d'.nodes.content? c).any Content.isInner = false
  others : ∀ n > d.nodes.fresh, d'.element? n = none

theorem parent?_fresh (d : Document) : d.nodes.parent? d.nodes.fresh = none := by
  cases hp : d.nodes.parent? d.nodes.fresh with
  | none => rfl
  | some p => exact absurd (Forest.lt_fresh_of_parent? hp) (Nat.lt_irrefl _)

/-- A new style element is made beside the tree. -/
theorem made_withStyle (h : d.Rooted) (id : String) : d.Made (d.withStyle id) id where
  rooted := h.push _
  fresh := by
    show d.nodes.fresh < (d.nodes.push _).fresh
    rw [Forest.fresh_push]
    exact Nat.lt_succ_self _
  content n hn := (Forest.content?_push d.nodes _ n).trans (if_neg (Nat.ne_of_lt hn))
  parent n _ := Forest.parent?_push d.nodes _ n
  children n _ := Forest.children_push d.nodes _ n
  focused := rfl
  style := by
    show ((d.nodes.push _).content? d.nodes.fresh).bind _ = _
    rw [Forest.content?_push, if_pos rfl]
    rfl
  free := (Forest.parent?_push d.nodes _ _).trans d.parent?_fresh
  texts c hc := by
    have hc : c ∈ (d.nodes.push _).children d.nodes.fresh := hc
    rw [Forest.children_push, Forest.children_of_fresh_le (Nat.le_refl _)] at hc
    cases hc
  others n hn := by
    show ((d.nodes.push _).content? n).bind _ = _
    rw [Forest.content?_push, if_neg (Nat.ne_of_gt hn), Forest.content?_eq_none_of_fresh_le (Nat.le_of_lt hn)]
    rfl

theorem Made.pushUnder (h : d.Made d' id) (s : String) (hempty : d'.nodes.children d.nodes.fresh = []) :
    d.Made (d'.pushUnder d.nodes.fresh (.text s)) id := by
  have old : ∀ n ≤ d.nodes.fresh, n ≠ d'.nodes.fresh := fun n hn => Nat.ne_of_lt (Nat.lt_of_le_of_lt hn h.fresh)
  refine
    { rooted := h.rooted.pushUnder h.fresh _, fresh := ?_, content := ?_, parent := ?_, children := ?_
      focused := h.focused, style := ?_, free := ?_, texts := ?_, others := ?_ }
  · rw [nodes_pushUnder, Forest.fresh_pushUnder]
    exact Nat.lt_succ_of_lt h.fresh
  · intro n hn
    rw [nodes_pushUnder, Forest.content?_pushUnder, if_neg (old n (Nat.le_of_lt hn))]
    exact h.content n hn
  · intro n hn
    rw [nodes_pushUnder, Forest.parent?_pushUnder_of_lt _ _ (Nat.lt_trans hn h.fresh)]
    exact h.parent n hn
  · intro n hn
    rw [nodes_pushUnder, Forest.children_pushUnder_of_ne _ _ (Nat.ne_of_lt hn)]
    exact h.children n hn
  · rw [element?, nodes_pushUnder, Forest.content?_pushUnder, if_neg (old _ (Nat.le_refl _))]
    exact h.style
  · rw [nodes_pushUnder, Forest.parent?_pushUnder_of_lt _ _ h.fresh]
    exact h.free
  · intro c hc
    rw [nodes_pushUnder, Forest.children_pushUnder_self _ h.fresh, hempty, List.nil_append, List.mem_singleton] at hc
    rw [hc, nodes_pushUnder, Forest.content?_pushUnder, if_pos rfl]
    rfl
  · intro n hn
    rw [element?, nodes_pushUnder, Forest.content?_pushUnder]
    split
    · rfl
    · exact h.others n hn

/-- It stays beside the tree when its text is set. -/
theorem made_setTextContent (h : d.Rooted) (id css : String) :
    d.Made ((d.withStyle id).setTextContent d.nodes.fresh css) id := by
  have made := made_withStyle h id
  have empty : (d.withStyle id).nodes.children d.nodes.fresh = [] :=
    (Forest.children_push d.nodes _ _).trans (Forest.children_of_fresh_le (Nat.le_refl _))
  unfold setTextContent
  rw [empty]
  dsimp only [List.foldl_nil]
  split
  · exact made
  · exact made.pushUnder css empty

theorem Made.isSome_content? (h : d.Made d' id) : (d'.nodes.content? d.nodes.fresh).isSome := by
  obtain ⟨c, hc, -⟩ := Option.bind_eq_some_iff.1 h.style
  exact Option.isSome_of_eq_some hc

theorem content?_append (d : Document) (parent child n : NodeId) :
    (d.append parent child).nodes.content? n = d.nodes.content? n := by
  rw [nodes_append, Forest.content?_append]

theorem element?_append (d : Document) (parent child n : NodeId) :
    (d.append parent child).element? n = d.element? n := by
  rw [element?, content?_append]
  rfl

/-- The style element that was made comes last among the children, as it had no parent. -/
theorem Made.children_append (h : d.Made d' id) {parent : NodeId} (hp : (d.nodes.content? parent).isSome)
    (n : NodeId) : (d'.append parent d.nodes.fresh).nodes.children n =
      d'.nodes.children n ++ if n = parent then [d.nodes.fresh] else [] := by
  obtain ⟨c, hc⟩ := Option.isSome_iff_exists.1 hp
  have there : (d'.nodes.content? parent).isSome := by
    rw [h.content parent (Forest.lt_fresh_of_content? hc)]
    exact hp
  rw [nodes_append, Forest.children_append _ there, Forest.children_detach, h.free, if_neg (by simp)]

theorem Made.parent?_append (h : d.Made d' id) (parent : NodeId) (hn : n < d.nodes.fresh) :
    (d'.append parent d.nodes.fresh).nodes.parent? n = d.nodes.parent? n := by
  rw [nodes_append, Forest.parent?_append _ h.isSome_content?, if_neg (Nat.ne_of_lt hn), h.parent n hn]

theorem Made.focused_append (h : d.Made d' id) (parent : NodeId) :
    (d'.append parent d.nodes.fresh).focused = d.focused := by
  have outside : d'.detach d.nodes.fresh = d' := by
    unfold Document.detach
    rw [h.free]
  show (d'.detach d.nodes.fresh).focused = d.focused
  rw [outside, h.focused]

/-- A style sheet that is put in comes at the end of the head. -/
theorem Dressed.injectStylesheet (h : d.Dressed d' sheets) (hd : d.Rooted) {css : String}
    (hi : d'.injectStylesheet id css = .ok d'') : d.Dressed d'' (sheets ++ [(d'.nodes.fresh, id)]) := by
  obtain ⟨head, hh', rfl⟩ := injectStylesheet_eq_ok hi
  have hh : d.head? = some head := (h.head? hd).symm.trans hh'
  have made := made_setTextContent h.rooted id css
  generalize (d'.withStyle id).setTextContent d'.nodes.fresh css = dₘ at made hi ⊢
  have hhead : head < d'.nodes.fresh := lt_fresh_of_childOfRoot? hh'
  have isHead : (d'.nodes.content? head).isSome := by
    obtain ⟨e, he⟩ := Option.isSome_iff_exists.1 (isSome_element?_of_childOfRoot? hh')
    obtain ⟨c, hc, -⟩ := Option.bind_eq_some_iff.1 he
    exact Option.isSome_of_eq_some hc
  have old : ∀ n < d.nodes.fresh, n < d'.nodes.fresh := fun n hn => Nat.lt_of_lt_of_le hn h.fresh
  -- earlier style sheets have smaller numbers than the new one, and the head has a smaller one than all of them
  refine
    { rooted := made.rooted.append (Nat.lt_trans hhead made.fresh) made.isSome_content?
      fresh := ?_, content := ?_, body := ?_, parent := ?_, children := ?_
      focused := (made.focused_append head).trans h.focused
      head := fun _ => Option.isSome_of_eq_some hh
      isNew := ?_, named := ?_, texts := ?_ }
  · rw [nodes_append, Forest.fresh_append]
    exact Nat.le_trans h.fresh (Nat.le_of_lt made.fresh)
  · intro n hn hne
    rw [content?_append, made.content n (old n hn)]
    exact h.content n hn hne
  · intro n e hn he
    rw [element?_append, element?, made.content n (old n (lt_fresh_of_element? he))]
    exact h.body n e hn he
  · intro n hn
    rw [made.parent?_append head (old n hn)]
    exact h.parent n hn
  · intro n hn
    rw [made.children_append isHead, made.children n (old n hn), h.children n hn, hh]
    by_cases hnh : n = head
    · subst hnh
      simp
    · rw [if_neg fun he => hnh (Option.some.inj he).symm, if_neg hnh]
      simp [Ne.symm hnh]
  · intro sheet hs
    rcases List.mem_append.1 hs with earlier | last
    · exact h.isNew sheet earlier
    · rw [List.mem_singleton.1 last]
      exact h.fresh
  · intro sheet hs
    rw [attribute?, element?_append]
    rcases List.mem_append.1 hs with earlier | last
    · rw [element?, made.content _ (h.sheet_lt_fresh earlier)]
      exact h.named sheet earlier
    · rw [List.mem_singleton.1 last, made.style]
      rfl
  · intro sheet hs c hc
    rw [made.children_append isHead] at hc
    rw [content?_append]
    rcases List.mem_append.1 hs with earlier | last
    · have other : sheet.1 ≠ head :=
        fun hsh => Nat.not_lt.2 (h.isNew sheet earlier) (hsh ▸ lt_fresh_of_childOfRoot? hh)
      rw [if_neg other, List.append_nil, made.children _ (h.sheet_lt_fresh earlier)] at hc
      rw [made.content c (h.rooted.linked.lt_fresh hc)]
      exact h.texts sheet earlier c hc
    · rw [List.mem_singleton.1 last, if_neg (Nat.ne_of_gt hhead), List.append_nil] at hc
      exact made.texts c hc

/-- A style sheet that is put in has no attribute but its id, and the other elements keep theirs. -/
theorem attribute?_injectStylesheet {css name : String} (hd : d.Rooted) (hi : d.injectStylesheet id css = .ok d')
    (hname : name ≠ "id") (n : NodeId) : d'.attribute? n name = d.attribute? n name := by
  obtain ⟨head, -, rfl⟩ := injectStylesheet_eq_ok hi
  have made := made_setTextContent hd id css
  have missing : ∀ m ≥ d.nodes.fresh, d.attribute? m name = none := by
    intro m hm
    rw [attribute?, element?, Forest.content?_eq_none_of_fresh_le hm]
    rfl
  rw [attribute?, element?_append]
  rcases Nat.lt_trichotomy n d.nodes.fresh with old | rfl | new
  · rw [element?, made.content n old]
    rfl
  · rw [made.style, missing _ (Nat.le_refl _)]
    show Table.get? name [("id", id)] = none
    rw [Table.get?, if_neg (Ne.symm hname), Table.get?]
  · rw [made.others n new, missing n (Nat.le_of_lt new)]
    rfl

/-! ## Removing a style sheet -/

/-- An id that neither the document nor a later style sheet carries is the first one's alone. -/
theorem Dressed.eq_of_carries {rest : List (NodeId × String)} (h : d.Dressed d' ((s, id) :: rest)) (hd : d.Rooted)
    (hid : d.byId? id = none) (hrest : id ∉ rest.map Prod.snd) (hm : d'.Carries id m) : m = s := by
  rcases h.carries hd hm with old | listed
  · exact absurd old (byId?_eq_none_iff.1 hid m)
  · rcases List.mem_cons.1 listed with same | later
    · exact congrArg Prod.fst same
    · exact absurd (List.mem_map.2 ⟨(m, id), later, rfl⟩) hrest

/-- A node carries one id, so the style sheets with other ids are other nodes. -/
theorem Dressed.not_mem_rest {rest : List (NodeId × String)} (h : d.Dressed d' ((s, id) :: rest))
    (hrest : id ∉ rest.map Prod.snd) : s ∉ rest.map Prod.fst := by
  intro listed
  obtain ⟨sheet, hs, same⟩ := List.mem_map.1 listed
  have named := h.named sheet (List.mem_cons_of_mem _ hs)
  rw [same, h.named (s, id) List.mem_cons_self] at named
  exact hrest (List.mem_map.2 ⟨sheet, hs, (Option.some.inj named).symm⟩)

/-- With the first style sheet out of its list, the head ends in the others. -/
theorem Dressed.children_detach {rest : List (NodeId × String)} (h : d.Dressed d' ((s, id) :: rest)) (hd : d.Rooted)
    (hrest : id ∉ rest.map Prod.snd) (hn : n < d.nodes.fresh) : (d'.detach s).nodes.children n =
      d.nodes.children n ++ if d.head? = some n then rest.map Prod.fst else [] := by
  obtain ⟨head, hh⟩ := Option.isSome_iff_exists.1 (h.head (List.cons_ne_nil _ _))
  have new : d.nodes.fresh ≤ s := h.isNew (s, id) List.mem_cons_self
  have parent : d'.nodes.parent? s = some head := by
    refine h.rooted.linked head s ?_
    rw [h.children head (lt_fresh_of_childOfRoot? hh), if_pos hh]
    exact List.mem_append_right _ List.mem_cons_self
  have kept : (d.nodes.children n).filter (· != s) = d.nodes.children n :=
    List.filter_bne_eq_self_of_not_mem fun hs => Nat.not_lt.2 new (hd.linked.lt_fresh hs)
  have left : (rest.map Prod.fst).filter (· != s) = rest.map Prod.fst :=
    List.filter_bne_eq_self_of_not_mem (h.not_mem_rest hrest)
  rw [nodes_detach, Forest.children_detach, parent, h.children n hn]
  by_cases hnh : d.head? = some n
  · rw [if_pos (hh.symm.trans hnh), if_pos hnh, if_pos hnh, List.filter_append, kept, List.map_cons,
      List.filter_cons_of_neg (by simp), left]
  · rw [if_neg fun he => hnh (hh.trans he), if_neg hnh, if_neg hnh]

/-- The style sheet that was put in first is removed by its id. -/
theorem Dressed.removeStylesheet {rest : List (NodeId × String)} (h : d.Dressed d' ((s, id) :: rest))
    (hd : d.Rooted) (hfocus : ∀ n, d.focused = some n → n < d.nodes.fresh) (hid : d.byId? id = none)
    (hrest : id ∉ rest.map Prod.snd) : d.Dressed (d'.removeStylesheet id) rest := by
  have new : d.nodes.fresh ≤ s := h.isNew (s, id) List.mem_cons_self
  have carries : d'.Carries id s := h.carries_sheet hd List.mem_cons_self
  rw [removeStylesheet_of_only h.rooted carries fun m hm => h.eq_of_carries hd hid hrest hm]
  refine
    { rooted := h.rooted.detach s, fresh := ?_, content := ?_, body := ?_, parent := ?_
      children := fun n hn => h.children_detach hd hrest hn
      focused := ?_, head := fun _ => h.head (List.cons_ne_nil _ _)
      isNew := fun t ht => h.isNew t (List.mem_cons_of_mem _ ht), named := ?_, texts := ?_ }
  · rw [nodes_detach, Forest.fresh_detach]
    exact h.fresh
  · intro n hn hne
    rw [nodes_detach, Forest.content?_detach]
    exact h.content n hn hne
  · intro n e hn he
    rw [element?, nodes_detach, Forest.content?_detach]
    exact h.body n e hn he
  · intro n hn
    rw [nodes_detach, Forest.parent?_detach, if_neg (Nat.ne_of_lt (Nat.lt_of_lt_of_le hn new))]
    exact h.parent n hn
  · rw [focused_detach_of_not_within, h.focused]
    intro f hf
    have apart : s ∉ d'.nodes.ancestors f := h.not_mem_ancestors hd new (hfocus f (h.focused ▸ hf))
    unfold Forest.isWithin
    rw [Bool.eq_false_iff]
    exact fun hc => apart (List.contains_iff_mem.1 hc)
  · intro t ht
    rw [attribute?_detach]
    exact h.named t (List.mem_cons_of_mem _ ht)
  · intro t ht c hc
    rw [nodes_detach] at hc
    rw [nodes_detach, Forest.content?_detach]
    exact h.texts t (List.mem_cons_of_mem _ ht) c (Forest.mem_children_detach hc).1

end Document

end InPlace.Browser

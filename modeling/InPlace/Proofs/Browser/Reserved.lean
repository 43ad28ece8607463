import InPlace.Proofs.Browser.Sheets

/-!
# Marks that are the editor's alone

The editor knows its marks in a document by the names of attributes and by the ids of style elements. As long as nobody
else writes these, and the document keeps its root element and its body, what carries them is what the editor has made
carry them. `AddsNothing` says of a change that it is of this kind. What it says of one of these matters it says under a
condition `C` on that alone, since a page may leave an attribute to the editor, say, and not the style sheets.

Main statements: `addsNothing_detach`, `addsNothing_setTextContent` and `addsNothing_removeStylesheet`.
-/

namespace InPlace.Browser.Document

/-- The attributes by which the editor marks elements. -/
def ownAttributes : List String :=
  [Overlay.selectedAttribute, Overlay.editingAttribute, Overlay.savingAttribute]

/-- The ids of its style elements. -/
def ownIds : List String :=
  [Overlay.stylesId, Overlay.scrollId]

/-- What a page may leave to the editor: an attribute, the ids of its style sheets, and which elements are the root element
and the body. -/
inductive Matter where
  | mark (name : String)
  | sheets
  | places

/-- The root element and the body stay where also the ids are left to the editor: with one of these the root element or
the body would be removed as a style sheet. -/
structure Placed (C : Matter → Prop) : Prop where
  sheets : C .sheets
  places : C .places

/-- A change that keeps the document a document with the elements that it has and, on these terms, exchanges neither the
root element nor the body. -/
structure KeepsPlaces (C : Matter → Prop) (d d' : Document) : Prop where
  rooted : d.Rooted → d'.Rooted
  elements : ∀ n, (d.element? n).isSome → (d'.element? n).isSome
  root : Placed C → d.Rooted → d'.root? = d.root?
  body : Placed C → d.Rooted → d'.body? = d.body?

/-- A change of this kind that, on the terms of `C`, brings none of the editor's marks into the document either. -/
structure AddsNothing (C : Matter → Prop) (d d' : Document) : Prop extends KeepsPlaces C d d' where
  marks : ∀ name ∈ ownAttributes, C (.mark name) → ∀ n, d.attribute? n name = none → d'.attribute? n name = none
  carries : C .sheets → d.Rooted → ∀ id ∈ ownIds, ∀ n, d'.Carries id n → d.Carries id n

section

variable {C : Matter → Prop} {d d' d'' : Document} {n m : NodeId}

theorem KeepsPlaces.trans (h : KeepsPlaces C d d') (h' : KeepsPlaces C d' d'') : KeepsPlaces C d d'' where
  rooted hd := h'.rooted (h.rooted hd)
  elements n hn := h'.elements n (h.elements n hn)
  root c hd := (h'.root c (h.rooted hd)).trans (h.root c hd)
  body c hd := (h'.body c (h.rooted hd)).trans (h.body c hd)

theorem AddsNothing.refl (d : Document) : AddsNothing C d d :=
  ⟨⟨id, fun _ => id, fun _ _ => rfl, fun _ _ => rfl⟩, fun _ _ _ _ => id, fun _ _ _ _ _ => id⟩

theorem AddsNothing.trans (h : AddsNothing C d d') (h' : AddsNothing C d' d'') : AddsNothing C d d'' where
  toKeepsPlaces := h.toKeepsPlaces.trans h'.toKeepsPlaces
  marks name hname c n hn := h'.marks name hname c n (h.marks name hname c n hn)
  carries c hd id hid n hn := h.carries c hd id hid n (h'.carries c (h.rooted hd) id hid n hn)

theorem KeepsPlaces.isRoot (h : KeepsPlaces C d d') (hc : Placed C) (hd : d.Rooted) (n : NodeId) :
    d'.isRoot n = d.isRoot n := by
  unfold Document.isRoot
  rw [h.root hc hd, h.body hc hd]

theorem isRoot_eq_false : d.isRoot n = false ↔ d.body? ≠ some n ∧ d.root? ≠ some n := by
  unfold isRoot
  rw [Bool.or_eq_false_iff, beq_eq_false_iff_ne, beq_eq_false_iff_ne]

/-- Where the tree is the same, everything is that the editor takes hold of. -/
theorem addsNothing_of_nodes (hn : d'.nodes = d.nodes) : AddsNothing C d d' := by
  have element : ∀ n, d'.element? n = d.element? n := fun n => by rw [element?, hn]; rfl
  have root : d'.root? = d.root? := by
    unfold root?
    rw [hn]
    exact congrArg (fun p => List.find? p _) (funext fun n => by rw [element])
  refine ⟨⟨fun hd => hd.of_nodes hn, ?_, fun _ _ => root, ?_⟩, ?_, ?_⟩
  · intro n h
    rw [element]
    exact h
  · intro _ _
    unfold body? childOfRoot?
    rw [root, hn]
    exact congrArg (fun f => Option.bind _ f) (funext fun r => congrArg (fun p => List.find? p _)
      (funext fun n => by rw [element]))
  · intro name _ _ n h
    rw [attribute?, element]
    exact h
  · intro _ _ id _ n h
    refine ⟨?_, ?_⟩
    · have inside := h.1
      unfold preorder at inside ⊢
      rw [hn] at inside
      exact inside
    · rw [attribute?, ← element]
      exact h.2

/-! ## Changes of elements -/

/-- A change of an element keeps where the root element and the body are. -/
theorem keepsPlaces_modifyElement (d : Document) (n : NodeId) {f : Element → Element}
    (hkind : ∀ e, (f e).isForeign = e.isForeign ∧ (f e).tag = e.tag) : KeepsPlaces C d (d.modifyElement n f) := by
  have some : ∀ m, ((d.modifyElement n f).element? m).isSome = (d.element? m).isSome :=
    fun m => isSome_element?_modifyElement d n m f
  have children : ∀ m, (d.modifyElement n f).nodes.children m = d.nodes.children m :=
    fun m => Forest.children_modifyContent d.nodes n m _
  have kind : ∀ m, ((d.modifyElement n f).element? m).map (fun e => (e.isForeign, e.tag)) =
      (d.element? m).map fun e => (e.isForeign, e.tag) := by
    intro m
    rw [element?_modifyElement]
    split
    · rw [Option.map_map]
      exact Option.map_congr fun e _ => Prod.ext (hkind e).1 (hkind e).2
    · rfl
  refine ⟨fun hd => hd.modifyElement n f, fun m hm => (some m).trans hm, fun _ _ => ?_, fun _ _ => ?_⟩
  · exact root?_congr (children _) fun m _ => some m
  · exact childOfRoot?_congr (children _) (fun root _ => children root) (fun m _ => some m) fun _ _ m _ => kind m

/-- It also keeps what is in the document, and so who carries an id, unless that is changed. -/
theorem carries_modifyElement {f : Element → Element} (hid : ∀ e, (f e).attributes.get? "id" = e.attributes.get? "id")
    {id : String} (h : (d.modifyElement n f).Carries id m) : d.Carries id m := by
  refine ⟨?_, (attribute?_modifyElement d n hid m).symm.trans h.2⟩
  have same : (d.modifyElement n f).preorder top = d.preorder top := by
    unfold preorder Forest.preorder
    have size : (d.modifyElement n f).nodes.cells.size = d.nodes.cells.size :=
      Forest.fresh_modifyContent d.nodes n _
    rw [size]
    exact Forest.preorderWithin_congr (fun m => isInner_modifyElement d n m f)
      (fun m => Forest.children_modifyContent d.nodes n m _) _ _
  exact same ▸ h.1

/-- A change of an element that keeps its kind, its id and the marks adds nothing. -/
theorem addsNothing_modifyElement (d : Document) (n : NodeId) {f : Element → Element}
    (hkind : ∀ e, (f e).isForeign = e.isForeign ∧ (f e).tag = e.tag)
    (hid : ∀ e, (f e).attributes.get? "id" = e.attributes.get? "id")
    (hmarks : ∀ e, ∀ name ∈ ownAttributes, e.attributes.get? name = none → (f e).attributes.get? name = none) :
    AddsNothing C d (d.modifyElement n f) where
  toKeepsPlaces := keepsPlaces_modifyElement d n hkind
  marks name hname _ m hm := by
    unfold attribute? at hm ⊢
    rw [element?_modifyElement]
    split
    · cases he : d.element? m with
      | none => rfl
      | some e =>
        rw [he] at hm
        exact hmarks e name hname hm
    · exact hm
  carries _ _ _ _ _ hm := carries_modifyElement hid hm

/-- An attribute that is no mark and no id adds nothing. -/
theorem addsNothing_putAttribute (d : Document) (n : NodeId) {name : String}
    (h : name ∉ ownAttributes ∧ name ≠ "id") (value : String) : AddsNothing C d (d.setAttribute n name (some value)) := by
  refine addsNothing_modifyElement d n (fun _ => ⟨rfl, rfl⟩) (fun e => ?_) fun e other hother he => ?_
  · rw [Table.get?_put, if_neg h.2]
  · rw [Table.get?_put, if_neg fun (hn : name = other) => h.1 (hn ▸ hother)]
    exact he

/-- To drop an attribute that is no id adds nothing. -/
theorem addsNothing_dropAttribute (d : Document) (n : NodeId) {name : String} (h : name ≠ "id") :
    AddsNothing C d (d.setAttribute n name none) := by
  refine addsNothing_modifyElement d n (fun _ => ⟨rfl, rfl⟩) (fun e => ?_) fun e other _ he => ?_
  · rw [Table.get?_drop, if_neg h]
  · rw [Table.get?_drop]
    split
    · rfl
    · exact he

/-- Inline styles and class names are none of the marks. -/
theorem addsNothing_restyle (d : Document) (n : NodeId) {f : Element → Element}
    (hkind : ∀ e, (f e).isForeign = e.isForeign ∧ (f e).tag = e.tag)
    (hothers : ∀ e name, name ≠ "style" → name ≠ "class" → (f e).attributes.get? name = e.attributes.get? name) :
    AddsNothing C d (d.modifyElement n f) := by
  refine addsNothing_modifyElement d n hkind (fun e => hothers e "id" (by decide) (by decide)) ?_
  intro e name hname he
  rw [hothers e name ?_ ?_]
  · exact he
  · rintro rfl
    exact absurd hname (by decide)
  · rintro rfl
    exact absurd hname (by decide)

theorem kind_putDeclaration (e : Element) (name value : String) :
    (e.putDeclaration name value).isForeign = e.isForeign ∧ (e.putDeclaration name value).tag = e.tag := by
  unfold Element.putDeclaration
  split
  · unfold Element.dropDeclaration
    split <;> exact ⟨rfl, rfl⟩
  · exact ⟨rfl, rfl⟩

theorem addsNothing_putDeclaration (d : Document) (n : NodeId) (name value : String) :
    AddsNothing C d (d.modifyElement n fun e => e.putDeclaration name value) :=
  addsNothing_restyle d n (fun e => kind_putDeclaration e name value)
    fun e _ hs _ => e.get?_putDeclaration name value hs

/-- Class names add nothing. -/
theorem addsNothing_setClasses (d : Document) (n : NodeId) (f : List String → List String) :
    AddsNothing C d (d.modifyElement n fun e => e.setClasses (f e.classes)) := by
  refine addsNothing_restyle d n (fun e => ?_) fun e name _ hc => ?_
  · unfold Element.setClasses
    split <;> exact ⟨rfl, rfl⟩
  · unfold Element.setClasses
    split
    · rfl
    · rw [Table.get?_put, if_neg (Ne.symm hc)]

/-- The cursor of the body adds nothing. -/
theorem addsNothing_setBodyCursor (d : Document) (cursor : Option String) :
    AddsNothing C d (d.setBodyCursor cursor) := by
  unfold setBodyCursor
  split
  · exact .refl d
  · exact addsNothing_putDeclaration d _ _ _

/-- What an attribute of the body is changed to. -/
theorem attribute?_setBodyAttribute (d : Document) (name other : String) (value : Option String) (n : NodeId) :
    (d.setBodyAttribute name value).attribute? n other =
      if d.body? = some n ∧ name = other then value else d.attribute? n other := by
  unfold setBodyAttribute
  split
  · rename_i hb
    rw [hb, if_neg fun h => nomatch h.1]
  · rename_i body hb
    rw [attribute?_setAttribute, hb]
    by_cases hn : body = n
    · subst hn
      simp [isSome_element?_of_childOfRoot? hb]
    · rw [if_neg fun h => hn h.1, if_neg fun h => hn (Option.some.inj h.1)]

/-- An attribute of the body keeps the root and the body in their places. -/
theorem keepsPlaces_setBodyAttribute (d : Document) (name : String) (value : Option String) :
    KeepsPlaces C d (d.setBodyAttribute name value) := by
  unfold setBodyAttribute
  split
  · exact (AddsNothing.refl d).toKeepsPlaces
  · cases value with
    | none => exact keepsPlaces_modifyElement d _ fun _ => ⟨rfl, rfl⟩
    | some value => exact keepsPlaces_modifyElement d _ fun _ => ⟨rfl, rfl⟩

/-- Ids are carried as before, when another attribute of the body is set. -/
theorem carries_setBodyAttribute {name id : String} {value : Option String} (hname : name ≠ "id")
    (h : (d.setBodyAttribute name value).Carries id n) : d.Carries id n := by
  unfold setBodyAttribute at h
  split at h
  · exact h
  · cases value with
    | none => exact carries_modifyElement (fun e => by rw [Table.get?_drop, if_neg hname]) h
    | some value => exact carries_modifyElement (fun e => by rw [Table.get?_put, if_neg hname]) h

theorem addsNothing_dropBodyAttribute (d : Document) {name : String} (hname : name ≠ "id") :
    AddsNothing C d (d.setBodyAttribute name none) where
  toKeepsPlaces := keepsPlaces_setBodyAttribute d name none
  marks other _ _ n hn := by
    rw [attribute?_setBodyAttribute]
    split
    · rfl
    · exact hn
  carries _ _ _ _ _ hn := carries_setBodyAttribute hname hn

/-! ## Changes of the tree -/

theorem find?_filter_ne {p : NodeId → Bool} {ns : List NodeId} (h : ns.find? p ≠ some n) :
    (ns.filter (· != n)).find? p = ns.find? p := by
  induction ns with
  | nil => rfl
  | cons a ns ih =>
    rw [List.find?_cons] at h ⊢
    cases ha : p a with
    | true =>
      rw [ha] at h
      have other : a ≠ n := fun han => h (congrArg some han)
      rw [List.filter_cons_of_pos (by simpa using other), List.find?_cons, ha]
    | false =>
      rw [ha] at h
      dsimp only at h ⊢
      by_cases han : a = n
      · rw [List.filter_cons_of_neg (by simp [han]), ih h]
      · rw [List.filter_cons_of_pos (by simpa using han), List.find?_cons, ha]
        exact ih h

theorem element?_detach (d : Document) (n m : NodeId) : (d.detach n).element? m = d.element? m := by
  rw [element?, nodes_detach, Forest.content?_detach]
  rfl

/-- The root stays the root when another node is detached. -/
theorem root?_detach (h : d.root? ≠ some n) : (d.detach n).root? = d.root? := by
  unfold root? at h ⊢
  rw [nodes_detach, Forest.children_detach, funext fun m => congrArg Option.isSome (element?_detach d n m)]
  split
  · exact find?_filter_ne h
  · rfl

/-- The body stays the body when another node than the root is detached. -/
theorem body?_detach (h : d.isRoot n = false) : (d.detach n).body? = d.body? := by
  obtain ⟨hb, hr⟩ := isRoot_eq_false.1 h
  unfold body? childOfRoot? at hb ⊢
  rw [root?_detach hr]
  cases hroot : d.root? with
  | none => rfl
  | some root =>
    rw [hroot] at hb
    dsimp only [Option.bind_some] at hb ⊢
    rw [nodes_detach, Forest.children_detach, funext fun m => congrArg (Option.any _) (element?_detach d n m)]
    split
    · exact find?_filter_ne hb
    · rfl

/-- What is taken out is neither the root element nor the body. -/
theorem addsNothing_detach (d : Document) (n : NodeId) (h : Placed C → d.isRoot n = false) :
    AddsNothing C d (d.detach n) where
  rooted hd := hd.detach n
  elements m hm := by
    rw [element?_detach]
    exact hm
  marks name _ _ m hm := by
    rw [attribute?_detach]
    exact hm
  carries _ _ id _ m hm := ⟨mem_preorder_of_detach hm.1, (attribute?_detach d n m "id").symm.trans hm.2⟩
  root c _ := root?_detach (isRoot_eq_false.1 (h c)).2
  body c _ := body?_detach (h c)

/-- Nodes that are detached add nothing. -/
theorem addsNothing_foldl_detach {ns : List NodeId} (hd : d.Rooted) (h : Placed C → ∀ n ∈ ns, d.isRoot n = false) :
    AddsNothing C d (ns.foldl Document.detach d) := by
  induction ns generalizing d with
  | nil => exact .refl d
  | cons n ns ih =>
    have first := addsNothing_detach d n fun c => h c n List.mem_cons_self
    refine first.trans (ih (hd.detach n) fun c m hm => ?_)
    rw [first.isRoot c hd]
    exact h c m (List.mem_cons_of_mem _ hm)

theorem content?_pushText (d : Document) (parent : NodeId) (s : String) (m : NodeId) :
    (d.pushUnder parent (.text s)).nodes.content? m =
      if m = d.nodes.fresh then some (.text s) else d.nodes.content? m :=
  Forest.content?_pushUnder d.nodes parent _ m

theorem element?_fresh (d : Document) : d.element? d.nodes.fresh = none := by
  rw [element?, Forest.content?_eq_none_of_fresh_le (Nat.le_refl _)]
  rfl

/-- A text that is put into the document is no element. -/
theorem element?_pushText (d : Document) (parent : NodeId) (s : String) (m : NodeId) :
    (d.pushUnder parent (.text s)).element? m = d.element? m := by
  rw [element?, content?_pushText]
  split
  · rename_i hm
    rw [hm, element?_fresh]
    rfl
  · rfl

/-- A new node is the last child of its parent. -/
theorem children_pushUnder (d : Document) {parent : NodeId} (hp : parent < d.nodes.fresh) (c : Content)
    (m : NodeId) : (d.pushUnder parent c).nodes.children m =
      d.nodes.children m ++ if m = parent then [d.nodes.fresh] else [] := by
  rw [nodes_pushUnder]
  by_cases hm : m = parent
  · rw [if_pos hm, hm, Forest.children_pushUnder_self _ hp]
  · rw [if_neg hm, List.append_nil, Forest.children_pushUnder_of_ne _ _ hm]

/-- Who looks for an element does not find a new text. -/
theorem find?_children_pushText (d : Document) {parent : NodeId} (hp : parent < d.nodes.fresh) (s : String)
    {p : Option Element → Bool} (hp' : p none = false) (m : NodeId) :
    ((d.pushUnder parent (.text s)).nodes.children m).find? (fun n => p ((d.pushUnder parent (.text s)).element? n)) =
      (d.nodes.children m).find? fun n => p (d.element? n) := by
  rw [children_pushUnder d hp, funext fun n => congrArg p (element?_pushText d parent s n), List.find?_append]
  split
  · rw [List.find?_singleton, element?_fresh, hp']
    exact Option.or_none
  · exact Option.or_none

theorem root?_pushText (d : Document) {parent : NodeId} (hp : parent < d.nodes.fresh) (s : String) :
    (d.pushUnder parent (.text s)).root? = d.root? :=
  find?_children_pushText d hp s (p := Option.isSome) rfl top

/-- A new text brings no other node into the document. -/
theorem mem_preorder_of_pushText (hd : d.Rooted) {parent : NodeId} (hp : parent < d.nodes.fresh) {s : String}
    (old : m ≠ d.nodes.fresh) (hm : m ∈ (d.pushUnder parent (.text s)).preorder top) : m ∈ d.preorder top := by
  refine hd.mem_preorder (Forest.mem_preorderWithin_of_fewer (fun p looked => ?_) (fun p c hc => ?_) hm)
  · rw [content?_pushText] at looked
    split at looked
    · cases looked
    · exact looked
  · rw [children_pushUnder d hp] at hc
    refine (List.mem_append.1 hc).imp_right fun new => ?_
    split at new
    · rw [List.mem_singleton.1 new, content?_pushText, if_pos rfl]
      exact ⟨Ne.symm old, rfl⟩
    · cases new

/-- A text that is put into the document is none of the editor's marks. -/
theorem addsNothing_pushText (d : Document) {parent : NodeId} (hp : parent < d.nodes.fresh) (s : String) :
    AddsNothing C d (d.pushUnder parent (.text s)) where
  rooted hd := hd.pushUnder hp _
  elements m hm := by
    rw [element?_pushText]
    exact hm
  root _ _ := root?_pushText d hp s
  body _ _ := by
    unfold body? childOfRoot?
    rw [root?_pushText d hp s]
    exact Option.bind_congr fun root _ =>
      find?_children_pushText d hp s (p := Option.any fun e => !e.isForeign && e.tag == "body") rfl root
  marks name _ _ m hm := by
    rw [attribute?, element?_pushText]
    exact hm
  carries _ hd id _ m hm := by
    have named : d.attribute? m "id" = some id := by
      rw [attribute?, ← element?_pushText]
      exact hm.2
    have old : m ≠ d.nodes.fresh := by
      rintro rfl
      rw [attribute?, element?_fresh] at named
      cases named
    exact ⟨mem_preorder_of_pushText hd hp old hm.1, named⟩

/-- The children of a node other than the document and the root element are neither the root element nor the body. -/
theorem Rooted.isRoot_child (hd : d.Rooted) (htop : n ≠ Document.top) (hroot : d.root? ≠ some n)
    (hm : m ∈ d.nodes.children n) : d.isRoot m = false := by
  have parent := hd.linked n m hm
  refine isRoot_eq_false.2 ⟨fun hb => ?_, fun hr => ?_⟩
  · obtain ⟨root, -, hr, hin, -⟩ := childOfRoot?_eq_some hb
    have other := hd.linked root m hin
    rw [parent] at other
    cases other
    exact hroot hr
  · have other := hd.linked Document.top m (root?_eq_some hr).1
    rw [parent] at other
    cases other
    exact htop rfl

/-- A text in place of what is inside a node, which is not the root element. -/
theorem addsNothing_setTextContent (hd : d.Rooted) (hn : n < d.nodes.fresh) (s : String)
    (h : Placed C → n ≠ top ∧ d.root? ≠ some n) : AddsNothing C d (d.setTextContent n s) := by
  have emptied : AddsNothing C d ((d.nodes.children n).foldl Document.detach d) :=
    addsNothing_foldl_detach hd fun c m hm => hd.isRoot_child (h c).1 (h c).2 hm
  unfold setTextContent
  dsimp only
  split
  · exact emptied
  · refine emptied.trans (addsNothing_pushText _ ?_ s)
    rw [fresh_foldl_detach]
    exact hn

/-- Elements with an id are removed, none of which is the root element or the body. -/
theorem addsNothing_removeStylesheet (hd : d.Rooted) (id : String)
    (h : Placed C → ∀ n, d.Carries id n → d.isRoot n = false) : AddsNothing C d (d.removeStylesheet id) := by
  have removed : ∀ (k : Nat) (d : Document), d.Rooted → (Placed C → ∀ n, d.Carries id n → d.isRoot n = false) →
      AddsNothing C d (d.removeById id k) := by
    intro k
    induction k with
    | zero => exact fun d _ _ => .refl d
    | succ k ih =>
      intro d hd h
      unfold removeById
      split
      · exact .refl d
      · rename_i n hn
        have found := carries_of_byId? hn
        have first := addsNothing_detach d n fun c => h c n found
        refine first.trans (ih _ (hd.detach n) fun c m hm => ?_)
        rw [first.isRoot c hd]
        exact h c m (carries_detach hd found hm).1
  exact removed _ d hd h

/-- A style sheet that is put in keeps the root element and the body. -/
theorem keepsPlaces_injectStylesheet (hd : d.Rooted) {id css : String} (hi : d.injectStylesheet id css = .ok d') :
    KeepsPlaces C d d' := by
  have dressed := (Dressed.refl hd).injectStylesheet hd hi
  refine ⟨fun _ => dressed.rooted, fun n hn => ?_, fun _ _ => dressed.root? hd, fun _ _ => dressed.body? hd⟩
  obtain ⟨e, he⟩ := Option.isSome_iff_exists.1 hn
  obtain ⟨e', he', -⟩ := dressed.element he
  rw [he']
  rfl

/-- Its style element is neither of them. -/
theorem carries_injectStylesheet (hd : d.Rooted) {id css other : String} (hi : d.injectStylesheet id css = .ok d')
    (hn : d'.Carries other n) : d.Carries other n ∨ d.isRoot n = false := by
  have dressed := (Dressed.refl hd).injectStylesheet hd hi
  rcases dressed.carries hd hn with old | new
  · exact .inl old
  · obtain rfl : n = d.nodes.fresh := congrArg Prod.fst (List.mem_singleton.1 new)
    refine .inr (isRoot_eq_false.2 ⟨fun hb => ?_, fun hr => ?_⟩)
    · exact Nat.lt_irrefl _ (lt_fresh_of_childOfRoot? hb)
    · obtain ⟨e, he⟩ := Option.isSome_iff_exists.1 (root?_eq_some hr).2
      exact Nat.lt_irrefl _ (lt_fresh_of_element? he)

/-- What has an id is not in the document after another id was removed, if it was not before. -/
theorem byId?_removeStylesheet_of_absent (hd : d.Rooted) {id : String} (other : String) (h : d.byId? id = none) :
    (d.removeStylesheet other).byId? id = none := by
  have removed : ∀ (k : Nat) (d : Document), d.Rooted → d.byId? id = none → (d.removeById other k).byId? id = none := by
    intro k
    induction k with
    | zero => exact fun d _ h => h
    | succ k ih =>
      intro d hd h
      unfold removeById
      split
      · exact h
      · rename_i n hn
        refine ih _ (hd.detach n) ?_
        rw [byId?_eq_none_iff] at h ⊢
        intro m hm
        exact h m ⟨mem_preorder_of_detach hm.1, (attribute?_detach d n m "id").symm.trans hm.2⟩
  exact removed _ d hd h

end

end InPlace.Browser.Document

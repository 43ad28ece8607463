import InPlace.Proofs.Browser.Elements
import InPlace.Proofs.Page.Walks

/-!
# Documents in a browser

What becomes of the elements and their places when a document is changed. A document is rooted if its tree is linked,
hangs together at existing nodes and has the document itself at the top; each change keeps it so.

Main statements: `attribute?_setAttribute`, `Rooted.mem_preorder` (what is in the document is found in it) and
`byId?_removeStylesheet` (no element with the id stays in it).
-/

namespace InPlace.Browser.Document

variable {d d' : Document} {n m : NodeId}

/-! ## Elements and attributes -/

theorem element?_modifyElement (d : Document) (n m : NodeId) (f : Element → Element) :
    (d.modifyElement n f).element? m = if n = m then (d.element? m).map f else d.element? m :=
  Forest.bind_content?_modifyContent_of_map d.nodes n m fun c => by cases c <;> rfl

/-- An element stays one when it is changed. -/
theorem isInner_modifyElement (d : Document) (n m : NodeId) (f : Element → Element) :
    ((d.modifyElement n f).nodes.content? m).any Content.isInner = (d.nodes.content? m).any Content.isInner := by
  show ((d.nodes.modifyContent n (Content.mapElement f)).content? m).any Content.isInner = _
  rw [Forest.content?_modifyContent]
  split
  · cases d.nodes.content? m with
    | none => rfl
    | some c => cases c <;> rfl
  · rfl

/-- An attribute is read as before where an element keeps it. -/
theorem attribute?_modifyElement (d : Document) (n : NodeId) {f : Element → Element} {name : String}
    (h : ∀ e, (f e).attributes.get? name = e.attributes.get? name) (m : NodeId) :
    (d.modifyElement n f).attribute? m name = d.attribute? m name := by
  unfold attribute?
  rw [element?_modifyElement]
  split
  · rw [Option.bind_map]
    exact Option.bind_congr fun e _ => h e
  · rfl

/-- A node that is an element stays one. -/
theorem isSome_element?_modifyElement (d : Document) (n m : NodeId) (f : Element → Element) :
    ((d.modifyElement n f).element? m).isSome = (d.element? m).isSome := by
  rw [element?_modifyElement]
  split
  · exact Option.isSome_map
  · rfl

/-- An attribute that is set has its value at its element; all others are as before. -/
theorem attribute?_setAttribute (d : Document) (n m : NodeId) (name other : String) (value : Option String) :
    (d.setAttribute n name value).attribute? m other =
      if n = m ∧ name = other ∧ (d.element? m).isSome then value else d.attribute? m other := by
  unfold attribute?
  cases value with
  | some v =>
    rw [show d.setAttribute n name (some v) =
      d.modifyElement n fun e => { e with attributes := e.attributes.put name v } from rfl, element?_modifyElement]
    by_cases hn : n = m
    · cases he : d.element? m with
      | none => simp [hn]
      | some e =>
        rw [if_pos hn, Option.map_some, Option.bind_some, Option.bind_some, Table.get?_put]
        simp [hn]
    · simp [hn]
  | none =>
    rw [show d.setAttribute n name none =
      d.modifyElement n fun e => { e with attributes := e.attributes.drop name } from rfl, element?_modifyElement]
    by_cases hn : n = m
    · cases he : d.element? m with
      | none => simp [hn]
      | some e =>
        rw [if_pos hn, Option.map_some, Option.bind_some, Option.bind_some, Table.get?_drop]
        simp [hn]
    · simp [hn]

theorem lt_fresh_of_element? {e : Element} (h : d.element? n = some e) : n < d.nodes.fresh := by
  obtain ⟨c, hc, -⟩ := Option.bind_eq_some_iff.1 h
  exact Forest.lt_fresh_of_content? hc

/-! ## Places -/

theorem nodes_blurWithin (d : Document) (n : NodeId) : (d.blurWithin n).nodes = d.nodes := by
  unfold blurWithin
  split <;> rfl

theorem nodes_detach (d : Document) (n : NodeId) : (d.detach n).nodes = d.nodes.detach n := by
  unfold detach
  cases hp : d.nodes.parent? n with
  | none =>
    unfold Forest.detach
    rw [hp]
  | some p =>
    show ((d.noteChange p).blurWithin n).nodes.detach n = _
    rw [nodes_blurWithin]
    rfl

theorem nodes_append (d : Document) (parent child : NodeId) :
    (d.append parent child).nodes = d.nodes.append parent child := by
  show (d.detach child).nodes.append parent child = _
  have gone : (d.nodes.detach child).detach child = d.nodes.detach child := by
    have free : (d.nodes.detach child).parent? child = none := by
      rw [Forest.parent?_detach, if_pos rfl]
    rw [Forest.detach, free]
  rw [nodes_detach]
  unfold Forest.append
  rw [gone]

theorem nodes_pushUnder (d : Document) (parent : NodeId) (c : Content) :
    (d.pushUnder parent c).nodes = d.nodes.pushUnder parent c :=
  rfl

theorem nodes_modifyElement (d : Document) (n : NodeId) (f : Element → Element) :
    (d.modifyElement n f).nodes = d.nodes.modifyContent n (Content.mapElement f) :=
  rfl

/-- What is outside of a node keeps the focus when the node is taken out. -/
theorem focused_detach_of_not_within (h : ∀ m, d.focused = some m → d.nodes.isWithin n m = false) :
    (d.detach n).focused = d.focused := by
  unfold detach blurWithin
  split
  · rfl
  · rename_i p hp
    have outside : ((d.noteChange p).focused.any ((d.noteChange p).nodes.isWithin n)) = false := by
      show d.focused.any (d.nodes.isWithin n) = false
      cases hf : d.focused with
      | none => rfl
      | some m => exact h m hf
    rw [if_neg (by rw [outside]; exact Bool.false_ne_true)]
    rfl

theorem content?_of_text? {s : String} (h : d.text? n = some s) : d.nodes.content? n = some (.text s) := by
  obtain ⟨c, hc, ht⟩ := Option.bind_eq_some_iff.1 h
  cases c with
  | text s' =>
    cases ht
    exact hc
  | element e => cases ht
  | document => cases ht

theorem content?_of_element? {e : Element} (h : d.element? n = some e) : d.nodes.content? n = some (.element e) := by
  obtain ⟨c, hc, he⟩ := Option.bind_eq_some_iff.1 h
  cases c with
  | element e' =>
    cases he
    exact hc
  | text s => cases he
  | document => cases he

/-! ## Rooted documents -/

/-- The document is the top of a tree in which children and parents agree. -/
structure Rooted (d : Document) : Prop where
  top : d.nodes.content? top = some .document
  linked : d.nodes.Linked
  parents : ∀ n p, d.nodes.parent? n = some p → p < d.nodes.fresh

theorem Rooted.top_lt_fresh (h : d.Rooted) : Document.top < d.nodes.fresh :=
  Forest.lt_fresh_of_content? h.top

theorem Rooted.element?_top (h : d.Rooted) : d.element? Document.top = none := by
  rw [element?, h.top]
  rfl

/-- A change of an element leaves the document below its top. -/
theorem Rooted.modifyElement (h : d.Rooted) (n : NodeId) (f : Element → Element) :
    (d.modifyElement n f).Rooted where
  top := by
    rw [nodes_modifyElement, Forest.content?_modifyContent, h.top]
    split <;> rfl
  linked := h.linked.of_eq (fun m => Forest.parent?_modifyContent d.nodes n m _)
    fun m => Forest.children_modifyContent d.nodes n m _
  parents m p hp := by
    rw [nodes_modifyElement, Forest.parent?_modifyContent] at hp
    rw [nodes_modifyElement, Forest.fresh_modifyContent]
    exact h.parents m p hp

/-- What is detached leaves the document below its top. -/
theorem Rooted.detach (h : d.Rooted) (n : NodeId) : (d.detach n).Rooted where
  top := by
    rw [nodes_detach, Forest.content?_detach]
    exact h.top
  linked := by
    rw [nodes_detach]
    exact h.linked.detach n
  parents m p hp := by
    rw [nodes_detach, Forest.parent?_detach] at hp
    rw [nodes_detach, Forest.fresh_detach]
    split at hp
    · cases hp
    · exact h.parents m p hp

/-- A node is appended below a node that there is. -/
theorem Rooted.append (h : d.Rooted) {parent child : NodeId} (hp : parent < d.nodes.fresh)
    (hc : (d.nodes.content? child).isSome) : (d.append parent child).Rooted where
  top := by
    rw [nodes_append, Forest.content?_append]
    exact h.top
  linked := by
    rw [nodes_append]
    exact h.linked.append hc
  parents m p hm := by
    rw [nodes_append, Forest.parent?_append _ hc] at hm
    rw [nodes_append, Forest.fresh_append]
    split at hm
    · cases hm
      exact hp
    · exact h.parents m p hm

/-- A new node stands alone. -/
theorem Rooted.push (h : d.Rooted) (c : Content) : (d.onNodes fun nodes => nodes.push c).Rooted where
  top := by
    show (d.nodes.push c).content? Document.top = _
    rw [Forest.content?_push, if_neg (Nat.ne_of_lt h.top_lt_fresh)]
    exact h.top
  linked := h.linked.push c
  parents m p hp := by
    have hp : (d.nodes.push c).parent? m = some p := hp
    rw [Forest.parent?_push] at hp
    show p < (d.nodes.push c).fresh
    rw [Forest.fresh_push]
    exact Nat.lt_succ_of_lt (h.parents m p hp)

theorem Rooted.of_nodes (h : d.Rooted) (hn : d'.nodes = d.nodes) : d'.Rooted where
  top := hn ▸ h.top
  linked := hn ▸ h.linked
  parents n p hp := hn ▸ h.parents n p (hn ▸ hp)

/-- A new node comes below a node that there is. -/
theorem Rooted.pushUnder (h : d.Rooted) {parent : NodeId} (hp : parent < d.nodes.fresh) (c : Content) :
    (d.pushUnder parent c).Rooted := by
  have pushed := h.push c
  have made : ((d.nodes.push c).content? d.nodes.fresh).isSome := by
    rw [Forest.content?_push, if_pos rfl]
    rfl
  have fresh : parent < (d.onNodes fun nodes => nodes.push c).nodes.fresh := by
    show parent < (d.nodes.push c).fresh
    rw [Forest.fresh_push]
    exact Nat.lt_succ_of_lt hp
  refine (pushed.append fresh made).of_nodes ?_
  rw [nodes_pushUnder, nodes_append]
  rfl

theorem Rooted.foldl_detach (h : d.Rooted) (ns : List NodeId) : (ns.foldl Document.detach d).Rooted := by
  induction ns generalizing d with
  | nil => exact h
  | cons n ns ih => exact ih (h.detach n)

theorem fresh_foldl_detach (d : Document) (ns : List NodeId) :
    (ns.foldl Document.detach d).nodes.fresh = d.nodes.fresh := by
  refine Forest.foldl_reading (r := fun d : Document => d.nodes.fresh) (fun d n => ?_) ns d
  rw [nodes_detach, Forest.fresh_detach]

theorem Rooted.setTextContent (h : d.Rooted) (hn : n < d.nodes.fresh) (s : String) :
    (d.setTextContent n s).Rooted := by
  have emptied := h.foldl_detach (d.nodes.children n)
  unfold Document.setTextContent
  dsimp only
  split
  · exact emptied
  · refine emptied.pushUnder ?_ _
    rw [fresh_foldl_detach]
    exact hn

/-- What is removed by its id leaves the document below its top. -/
theorem Rooted.removeById (h : d.Rooted) (id : String) (k : Nat) : (d.removeById id k).Rooted := by
  induction k generalizing d with
  | zero => exact h
  | succ k ih =>
    unfold Document.removeById
    split
    · exact h
    · exact ih (h.detach _)

theorem Rooted.removeStylesheet (h : d.Rooted) (id : String) : (d.removeStylesheet id).Rooted :=
  h.removeById id d.nodes.fresh

/-- A new document is rooted. -/
theorem rooted_new (head body : Bool) : (Document.new head body).Rooted := by
  have single : ({ nodes := Forest.push {} .document } : Document).Rooted := by
    have nothing : ∀ n, (Forest.push ({} : Forest Content) .document).parent? n = none := fun n => by
      rw [Forest.parent?_push]
      rfl
    have childless : ∀ n, ({} : Forest Content).children n = [] := fun n => rfl
    refine ⟨rfl, Forest.Linked.push (fun n c hc => ?_) _, fun n p hp => ?_⟩
    · rw [childless] at hc
      cases hc
    · rw [show Forest.parent? _ n = none from nothing n] at hp
      cases hp
  have attached : ∀ (d : Document), d.Rooted → 1 < d.nodes.fresh → ∀ (b : Bool) n, n < d.nodes.fresh →
      (if b then d.append 1 n else d).Rooted := by
    intro d hd hroot b n hn
    cases b with
    | true => exact hd.append hroot (Forest.isSome_content?_iff.2 hn)
    | false => exact hd
  have root := single.pushUnder (Nat.zero_lt_one) (.element { tag := "html" })
  have withHead := attached _ (root.push (.element { tag := "head" })) (by decide) head 2 (by decide)
  have withBody := attached _ (withHead.push (.element { tag := "body" })) (by cases head <;> decide) body 3
    (by cases head <;> decide)
  refine withBody.of_nodes ?_
  cases head <;> cases body <;> rfl

/-! ## What is in the document -/

/-- What is below a node of the document at any depth is found in it. -/
theorem Rooted.mem_preorder (h : d.Rooted) {k : Nat}
    (hm : m ∈ d.nodes.preorderWithin Content.isInner k Document.top) : m ∈ d.preorder Document.top :=
  h.linked.mem_preorder h.top_lt_fresh hm

/-- Nothing comes into the document when a node is taken out. -/
theorem mem_preorder_of_detach (hm : m ∈ (d.detach n).preorder top) : m ∈ d.preorder top := by
  have size : (d.nodes.detach n).cells.size = d.nodes.cells.size := Forest.fresh_detach d.nodes n
  unfold preorder Forest.preorder at hm ⊢
  rw [nodes_detach, size] at hm
  refine Forest.mem_preorderWithin_of_fewer (fun p hp => ?_) (fun p c hc => ?_) hm
  · rw [Forest.content?_detach] at hp
    exact hp
  · exact .inl (Forest.mem_children_detach hc).1

/-- A node that is taken out leaves the document. -/
theorem mem_preorder_detach (h : d.Rooted) (hn : n ≠ top) (hm : m ∈ (d.detach n).preorder top) :
    m ∈ d.preorder top ∧ m ≠ n := by
  refine ⟨mem_preorder_of_detach hm, ?_⟩
  rintro rfl
  obtain ⟨p, child⟩ := Forest.exists_mem_children_of_mem_preorderWithin hn hm
  rw [nodes_detach] at child
  exact Forest.not_mem_children_detach h.linked m p child

/-- An element with the id is in the document. -/
def Carries (d : Document) (id : String) (n : NodeId) : Prop :=
  n ∈ d.preorder top ∧ d.attribute? n "id" = some id

theorem any_id_iff {id : String} :
    ((d.element? n).any fun e => e.attributes.get? "id" == some id) = true ↔ d.attribute? n "id" = some id := by
  unfold attribute?
  cases d.element? n with
  | none => simp
  | some e => simp

theorem carries_of_byId? {id : String} (h : d.byId? id = some n) : d.Carries id n := by
  unfold byId? at h
  have named := List.find?_some (p := fun n => (d.element? n).any fun e => e.attributes.get? "id" == some id) h
  exact ⟨List.mem_of_find?_eq_some h, any_id_iff.1 named⟩

/-- No element is found by an id exactly if none in the document carries it. -/
theorem byId?_eq_none_iff {id : String} : d.byId? id = none ↔ ∀ n, ¬ d.Carries id n := by
  unfold byId?
  rw [List.find?_eq_none]
  constructor
  · exact fun h n hn => h n hn.1 (any_id_iff.2 hn.2)
  · exact fun h n hn hid => h n ⟨hn, any_id_iff.1 hid⟩

theorem attribute?_detach (d : Document) (n m : NodeId) (name : String) :
    (d.detach n).attribute? m name = d.attribute? m name := by
  unfold attribute? element?
  rw [nodes_detach, Forest.content?_detach]

theorem Rooted.ne_top_of_attribute? (h : d.Rooted) {name value : String} (hn : d.attribute? n name = some value) :
    n ≠ Document.top := by
  rintro rfl
  rw [attribute?, h.element?_top] at hn
  cases hn

/-- When an element with an id is taken out, the others with that id stay. -/
theorem carries_detach (h : d.Rooted) {id : String} (hn : d.Carries id n) (hm : (d.detach n).Carries id m) :
    d.Carries id m ∧ m ≠ n := by
  obtain ⟨found, other⟩ := mem_preorder_detach h (h.ne_top_of_attribute? hn.2) hm.1
  exact ⟨⟨found, (attribute?_detach d n m "id").symm.trans hm.2⟩, other⟩

theorem removeById_of_absent {id : String} (h : d.byId? id = none) (k : Nat) : d.removeById id k = d := by
  cases k with
  | zero => rfl
  | succ k => rw [removeById, h]

/-- There is nothing to remove where no element has the id. -/
theorem removeStylesheet_of_absent {id : String} (h : d.byId? id = none) : d.removeStylesheet id = d :=
  removeById_of_absent h _

/-- The only element with an id is the one that is removed. -/
theorem removeStylesheet_of_only (h : d.Rooted) {id : String} (hn : d.Carries id n)
    (only : ∀ m, d.Carries id m → m = n) : d.removeStylesheet id = d.detach n := by
  have absent : (d.detach n).byId? id = none := by
    rw [byId?_eq_none_iff]
    intro m hm
    obtain ⟨before, other⟩ := carries_detach h hn hm
    exact other (only m before)
  have found : d.byId? id = some n := by
    cases hf : d.byId? id with
    | none => exact absurd hn (byId?_eq_none_iff.1 hf n)
    | some m => rw [only m (carries_of_byId? hf)]
  obtain ⟨k, hk⟩ := Nat.exists_eq_succ_of_ne_zero (Nat.ne_of_gt (Nat.lt_of_le_of_lt (Nat.zero_le _) h.top_lt_fresh))
  rw [removeStylesheet, hk, removeById, found]
  exact removeById_of_absent absent k

/-- As many elements with an id are removed as there may be. -/
theorem byId?_removeById (h : d.Rooted) {id : String} {k : Nat} {S : Finset NodeId}
    (hS : ∀ n, d.Carries id n → n ∈ S) (hk : S.card ≤ k) : (d.removeById id k).byId? id = none := by
  -- every step takes one element out of the set of those that may carry the id
  induction k generalizing d S with
  | zero =>
    rw [byId?_eq_none_iff]
    intro n hn
    have empty : S = ∅ := Finset.card_eq_zero.1 (Nat.le_zero.1 hk)
    exact absurd (hS n hn) (empty ▸ Finset.notMem_empty n)
  | succ k ih =>
    unfold removeById
    cases hf : d.byId? id with
    | none => exact hf
    | some n =>
      have found := carries_of_byId? hf
      refine ih (h.detach n) (S := S.erase n) (fun m hm => ?_) ?_
      · obtain ⟨before, other⟩ := carries_detach h found hm
        exact Finset.mem_erase.2 ⟨other, hS m before⟩
      · rw [Finset.card_erase_of_mem (hS n found)]
        omega

/-- No element with the id of a removed style sheet stays in the document. -/
theorem byId?_removeStylesheet (h : d.Rooted) (id : String) : (d.removeStylesheet id).byId? id = none := by
  refine byId?_removeById h (S := Finset.range d.nodes.fresh) (fun n hn => ?_) ?_
  · obtain ⟨e, he, -⟩ := Option.bind_eq_some_iff.1 hn.2
    exact Finset.mem_range.2 (lt_fresh_of_element? he)
  · rw [Finset.card_range]

/-- Style sheets that are removed stay the elements that they are. -/
theorem element?_removeStylesheet (d : Document) (id : String) (n : NodeId) :
    (d.removeStylesheet id).element? n = d.element? n := by
  have removed : ∀ (k : Nat) (d : Document), (d.removeById id k).element? n = d.element? n := by
    intro k
    induction k with
    | zero => exact fun _ => rfl
    | succ k ih =>
      intro d
      unfold removeById
      split
      · rfl
      · rw [ih, element?, nodes_detach, Forest.content?_detach]
        rfl
  exact removed _ d

end InPlace.Browser.Document

import InPlace.Proofs.Tagging.Attributes
import InPlace.Proofs.Tagging.EditedText
import InPlace.Proofs.Tagging.Insertions

/-!
# Tagging only adds

A file that cannot be tagged is given back as it was. A tagged file has texts of one form put in between pieces
of the source, as many as are reported, and nothing else becomes of it. The insertions always have their places:
they go behind nodes of the tree, and these end between characters.

Main statements: `valid_editsOf` and `tagWith_adds`.
-/

namespace InPlace.Tagging

open Tsx (Node)
open Text (byteLength)

/-- The nodes of a tree lie in a text, and begin and end between characters of it. -/
def InRange (source : String) (tree : Node) : Prop :=
  ∀ n ∈ tree.preorder, ∃ before text after, source.toList = before ++ text ++ after ∧
    byteLength before = n.span.start ∧ byteLength (before ++ text) = n.span.stop

/-- A text of two attributes, as it is put into a tag. -/
def IsTagText (text : String) : Prop :=
  ∃ identity name : String, '"' ∉ identity.toList ∧ '"' ∉ name.toList ∧
    text = " data-sg-el=\"" ++ identity ++ "\" data-sg-name=\"" ++ name ++ "\""

/-- What a report on a source says of it, with source maps asked for or not. -/
structure Report.Adds (r : Report) (source : String) (maps : Bool) : Prop where
  untagged : r.status ≠ .tagged → r.code = source ∧ r.inserted = 0 ∧ r.failed = 0 ∧ r.map = none
  /-- The code is the source in pieces with a text put in behind each of them. -/
  tagged : r.status = .tagged → ∃ pieces : List (List Char × String), ∃ rest,
    pieces.length = r.inserted ∧ (∀ p ∈ pieces, IsTagText p.2) ∧
    source.toList = pieces.flatMap Prod.fst ++ rest ∧
    r.code.toList = pieces.flatMap (fun p => p.1 ++ p.2.toList) ++ rest
  mapped : r.status = .tagged → (r.map.isSome = true ↔ maps = true)
  changed : r.code ≠ source ↔ r.changed = true

section

variable {o : Options} {source path : String} {tree n c : Node} {i : Insertion}

/-! ## Places of insertions -/

theorem mem_preorder_self (n : Node) : n ∈ n.preorder := by
  cases n with
  | mk kind role span children => exact List.mem_cons_self

theorem mem_preorderList_of_mem {ns : List Node} (h : n ∈ ns) : n ∈ Node.preorderList ns := by
  induction ns with
  | nil => exact absurd h List.not_mem_nil
  | cons m ns ih =>
    rw [Node.preorderList, List.mem_append]
    rcases List.mem_cons.1 h with rfl | h
    · exact .inl (mem_preorder_self n)
    · exact .inr (ih h)

mutual

/-- The children of a node of a tree are nodes of the tree. -/
theorem mem_preorder_of_mem_children (hc : c ∈ n.children) :
    ∀ tree : Node, n ∈ tree.preorder → c ∈ tree.preorder
  | .mk kind role span children, hn => by
    rw [Node.preorder, List.mem_cons] at hn ⊢
    rcases hn with rfl | hn
    · exact .inr (mem_preorderList_of_mem hc)
    · exact .inr (mem_preorderList_of_mem_children hc children hn)

/-- The children of a node in a tree are in the tree. -/
theorem mem_preorderList_of_mem_children (hc : c ∈ n.children) :
    ∀ trees : List Node, n ∈ Node.preorderList trees → c ∈ Node.preorderList trees
  | [], hn => absurd hn List.not_mem_nil
  | tree :: trees, hn => by
    rw [Node.preorderList, List.mem_append] at hn ⊢
    rcases hn with hn | hn
    · exact .inl (mem_preorder_of_mem_children hc tree hn)
    · exact .inr (mem_preorderList_of_mem_children hc trees hn)

end

/-- What is inserted into a tag goes behind one of its children. -/
theorem offset_of_insertion? {cs : List Char} (h : insertion? o cs path n = some i) :
    ∃ c ∈ n.children, i.offset = c.span.stop := by
  obtain ⟨nameNode, name, identity, named, -, -, -, -, rfl⟩ := insertion?_eq_some_iff.1 h
  cases hargs : typeArguments? n with
  | none => exact ⟨nameNode, List.mem_of_find?_eq_some named, rfl⟩
  | some c =>
    refine ⟨c, ?_, rfl⟩
    rcases Option.or_eq_some_iff.1 hargs with hc | ⟨-, hc⟩
    · exact List.mem_of_find?_eq_some hc
    · exact List.mem_of_find?_eq_some hc

/-- An insertion of the tagger is one for a tag of the tree. -/
theorem exists_tag_of_mem (h : i ∈ (editsOf o source path tree).1.insertions) :
    ∃ n ∈ tree.preorder, insertion? o source.toList path n = some i := by
  rw [insertions_editsOf] at h
  obtain ⟨n, hn, hi⟩ := List.mem_filterMap.1 h
  exact ⟨n, List.mem_filter.1 hn |>.1, hi⟩

/-- The insertions of the tagger have their places in the source. -/
theorem valid_editsOf (h : InRange source tree) (o : Options) (path : String) :
    (editsOf o source path tree).1.badOffset? source = none := by
  refine EditList.badOffset?_eq_none_iff.2 fun i hi => ?_
  obtain ⟨n, hn, hi⟩ := exists_tag_of_mem hi
  obtain ⟨c, hc, offset⟩ := offset_of_insertion? hi
  obtain ⟨before, text, after, whole, -, stop⟩ := h c (mem_preorder_of_mem_children hc tree hn)
  exact ⟨before ++ text, after, whole, stop.trans offset.symm⟩

/-! ## Inserted texts -/

theorem tagText_eq (identity name : String) : tagText identity name =
    " data-sg-el=\"" ++ escapeAttribute identity ++ "\" data-sg-name=\"" ++ escapeAttribute name ++ "\"" := by
  unfold tagText identityAttribute nameAttribute
  simp only [String.append_assoc]
  rfl

theorem isTagText_tagText (identity name : String) : IsTagText (tagText identity name) :=
  ⟨escapeAttribute identity, escapeAttribute name, not_mem_escapeAttribute (by decide) identity,
    not_mem_escapeAttribute (by decide) name, tagText_eq identity name⟩

theorem isTagText_of_mem (h : i ∈ (editsOf o source path tree).1.insertions) : IsTagText i.text := by
  obtain ⟨n, -, hi⟩ := exists_tag_of_mem h
  obtain ⟨-, name, identity, -, -, -, -, -, rfl⟩ := insertion?_eq_some_iff.1 hi
  exact isTagText_tagText identity name

theorem IsTagText.ne_nil {text : String} (h : IsTagText text) : text.toList ≠ [] := by
  obtain ⟨identity, name, -, -, rfl⟩ := h
  simp [String.toList_append]

/-- Every text that is put in makes the whole longer. -/
theorem length_pieces {pieces : List (List Char × String)} (h : ∀ p ∈ pieces, IsTagText p.2) :
    (pieces.flatMap Prod.fst).length + pieces.length ≤
      (pieces.flatMap fun p => p.1 ++ p.2.toList).length := by
  induction pieces with
  | nil => exact Nat.le_refl 0
  | cons p pieces ih =>
    obtain ⟨first, others⟩ := List.forall_mem_cons.1 h
    have more := ih others
    have some := List.length_pos_iff.2 first.ne_nil
    simp only [List.flatMap_cons, List.length_append, List.length_cons]
    omega

/-- A text differs from the one with something put in exactly if something was put in. -/
theorem pieces_ne_iff {pieces : List (List Char × String)} (h : ∀ p ∈ pieces, IsTagText p.2)
    (rest : List Char) : pieces.flatMap (fun p => p.1 ++ p.2.toList) ++ rest ≠
      pieces.flatMap Prod.fst ++ rest ↔ 0 < pieces.length := by
  constructor
  · intro hne
    refine Nat.pos_of_ne_zero fun hzero => hne ?_
    rw [List.eq_nil_of_length_eq_zero hzero]
    rfl
  · intro hpos heq
    have longer := length_pieces h
    have same := congrArg List.length heq
    simp only [List.length_append] at same
    omega

/-! ## Reports -/

theorem adds_unchanged {status : Status} (h : status ≠ .tagged) (source : String) (maps : Bool) :
    (Report.unchanged source status).Adds source maps where
  untagged _ := ⟨rfl, rfl, rfl, rfl⟩
  tagged ht := absurd ht h
  mapped ht := absurd ht h
  changed := by simp [Report.unchanged, Report.changed]

/-- The report on a source whose tree is known. -/
theorem tagTree_eq (h : InRange source tree) (o : Options) (path : String) :
    tagTree o source path tree =
      ⟨String.ofList (((editsOf o source path tree).1.letters source).map Letter.char), .tagged,
        (editsOf o source path tree).1.size, (editsOf o source path tree).2,
        if o.sourceMaps then some (.ofEdits path source (editsOf o source path tree).1) else none⟩ := by
  unfold tagTree
  dsimp only
  rw [EditList.apply_eq_ok (valid_editsOf h o path)]

/-- What is tagged is the source with insertions. -/
theorem adds_tagTree (h : InRange source tree) (o : Options) (path : String) :
    (tagTree o source path tree).Adds source o.sourceMaps := by
  have valid := valid_editsOf h o path
  have cuts := EditList.cuts_sorted valid
  obtain ⟨pieces, rest, insertions, whole, edited⟩ := cuts.pieces
  rw [cuts.splice_eq, EditList.lettersFrom_sorted] at edited
  have count : pieces.length = (editsOf o source path tree).1.size := by
    rw [← List.length_map (f := Prod.snd), insertions, EditList.sorted, List.length_mergeSort]
    rfl
  let texts := pieces.map fun p => (p.1, p.2.text)
  have forms : ∀ p ∈ texts, IsTagText p.2 := by
    intro p hp
    obtain ⟨q, hq, rfl⟩ := List.mem_map.1 hp
    have hmem : q.2 ∈ pieces.map Prod.snd := List.mem_map_of_mem hq
    rw [insertions] at hmem
    exact isTagText_of_mem (EditList.mem_sorted.1 hmem)
  have size : texts.length = (editsOf o source path tree).1.size :=
    (List.length_map _).trans count
  have source_eq : source.toList = texts.flatMap Prod.fst ++ rest := by
    rw [whole, List.flatMap_map]
  have code_eq : ((editsOf o source path tree).1.letters source).map Letter.char =
      texts.flatMap (fun p => p.1 ++ p.2.toList) ++ rest := by
    rw [List.flatMap_map]
    exact edited
  rw [tagTree_eq h]
  refine ⟨fun ht => absurd rfl ht, fun _ => ?_, fun _ => ?_, ?_⟩
  · exact ⟨texts, rest, size, forms, source_eq, String.toList_ofList.trans code_eq⟩
  · cases o.sourceMaps <;> simp
  · rw [Report.changed, decide_eq_true_eq, ne_eq, ← String.toList_inj, String.toList_ofList, code_eq,
      source_eq]
    exact (pieces_ne_iff forms rest).trans (by rw [size])

/-! ## Files -/

variable {parse : String → Option Node}

theorem tagWith_of_not_appliesTo (h : o.appliesTo path = false) :
    tagWith parse o source path = .unchanged source .notApplicable := by
  rw [tagWith, h]
  rfl

theorem tagWith_of_none (h : o.appliesTo path = true) (htree : parse source = none) :
    tagWith parse o source path = .unchanged source .passedThrough := by
  rw [tagWith, h, htree]
  rfl

theorem tagWith_of_some (h : o.appliesTo path = true) (htree : parse source = some tree) :
    tagWith parse o source path = tagTree o source path tree := by
  rw [tagWith, h, htree]
  rfl

/-- Tagging a file adds texts to it or leaves it as it is. It is passed over if the options leave it out, and
passed through if it cannot be parsed, but never for want of a place to insert. Whether a source map is asked
for makes no difference to anything else. -/
theorem tagWith_adds (parse : String → Option Node) (o : Options) (source path : String)
    (ranges : ∀ tree, parse source = some tree → InRange source tree) :
    let r := tagWith parse o source path
    r.Adds source o.sourceMaps ∧
      (r.status = .notApplicable ↔ o.appliesTo path = false) ∧
      (r.status = .passedThrough ↔ o.appliesTo path = true ∧ parse source = none) ∧
      ∀ maps, let r' := tagWith parse { o with sourceMaps := maps } source path
        r'.status = r.status ∧ r'.code = r.code ∧ r'.inserted = r.inserted ∧ r'.failed = r.failed := by
  dsimp only
  cases applies : o.appliesTo path with
  | false =>
    rw [tagWith_of_not_appliesTo applies]
    refine ⟨adds_unchanged (by decide) source _, by simp [Report.unchanged], by simp [Report.unchanged],
      fun maps => ?_⟩
    rw [tagWith_of_not_appliesTo (o := { o with sourceMaps := maps }) applies]
    exact ⟨rfl, rfl, rfl, rfl⟩
  | true =>
    cases htree : parse source with
    | none =>
      rw [tagWith_of_none applies htree]
      refine ⟨adds_unchanged (by decide) source _, by simp [Report.unchanged], by simp [Report.unchanged],
        fun maps => ?_⟩
      rw [tagWith_of_none (o := { o with sourceMaps := maps }) applies htree]
      exact ⟨rfl, rfl, rfl, rfl⟩
    | some tree =>
      have range := ranges tree htree
      have status : (tagTree o source path tree).status = .tagged := by rw [tagTree_eq range]
      rw [tagWith_of_some applies htree]
      refine ⟨adds_tagTree range o path, by simp [status], by simp [status], fun maps => ?_⟩
      rw [tagWith_of_some (o := { o with sourceMaps := maps }) applies htree, tagTree_eq range,
        tagTree_eq range]
      exact ⟨rfl, rfl, rfl, rfl⟩

end

/-! ## A source with two tags -/

/-- A node with a text in the source begins and ends between characters of it. -/
theorem inRange_of_texts {source : String} {tree : Node}
    (h : ∀ n ∈ tree.preorder, (text? source.toList n).isSome = true) : InRange source tree := by
  intro n hn
  obtain ⟨text, ht⟩ := Option.isSome_iff_exists.1 (h n hn)
  obtain ⟨before, after, range⟩ := Text.slice?_eq_some.1 ht
  exact ⟨before, text, after, range⟩

/-- The second tag stands behind a character of two bytes. -/
theorem tagWith_adds_nested :
    let source := "<ul>é<li/></ul>"
    let r := tagWith Tsx.parse { sourceMaps := true } source "a.tsx"
    r.status = .tagged ∧ r.inserted = 2 ∧ r.Adds source true := by
  have tagged : (tagWith Tsx.parse { sourceMaps := true } "<ul>é<li/></ul>" "a.tsx").status = .tagged ∧
      (tagWith Tsx.parse { sourceMaps := true } "<ul>é<li/></ul>" "a.tsx").inserted = 2 := by
    decide +kernel
  have read : (Tsx.parse "<ul>é<li/></ul>").all fun tree =>
      tree.preorder.all fun n => (text? "<ul>é<li/></ul>".toList n).isSome := by
    decide +kernel
  have ranges : ∀ tree, Tsx.parse "<ul>é<li/></ul>" = some tree → InRange "<ul>é<li/></ul>" tree := by
    intro tree htree
    rw [htree] at read
    exact inRange_of_texts (List.all_eq_true.1 read)
  exact ⟨tagged.1, tagged.2,
    (tagWith_adds Tsx.parse { sourceMaps := true } "<ul>é<li/></ul>" "a.tsx" ranges).1⟩

end InPlace.Tagging

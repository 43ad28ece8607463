import InPlace.Proofs.Tagging.Additions
import InPlace.Proofs.Text.Places
import InPlace.Tsx.TreeCursor

/-!
# Which tags are covered

The tagger walks over a tree with a cursor and tries each tag that it meets. In a tree whose nodes stand where they are
said to stand no tag fails, and a tag gets an insertion exactly if it is covered: it has a name that is not excluded, and
no attribute of its own for identities.

Main statement: `collect_covers`.
-/

namespace InPlace.Tagging

open Tsx (Node NodeKind TreeCursor)
open Text (Position byteLength unitLength)

/-- The insertions for the tags that a cursor meets on its way over a tree, and the number of tags that failed. -/
def collect (o : Options) (source path : String) (tree : Node) : EditList × Nat :=
  (TreeCursor.top tree).visit (recordTag o source.toList path) (.empty, 0)

/-- A row, and a distance in bytes from its beginning. -/
structure Point where
  row : Nat
  column : Nat

/-- The identity of the place at which a node is said to begin. -/
def identityAt (source path : String) (p : Point) (n : Node) : Except ElementError String :=
  let at? := do
    let lineStart ← if p.column ≤ n.span.start then some (n.span.start - p.column) else none
    let column ← (Text.columnAt? source lineStart n.span.start).bind word32?
    let line ← word32? (p.row + 1)
    some (Identity.encode path line column)
  match at? with
  | some identity => .ok identity
  | none => .error (.invalidLocation n.span.start)

/-- The nodes of a tree lie in a text as they are said to: they begin and end between characters, no tag is empty, and
tags begin in the rows and columns that are told for them. -/
structure WellPlaced (source : String) (startOf : Node → Point) (tree : Node) : Prop where
  ranges : InRange source tree
  nonempty : ∀ n ∈ tags tree, n.span.start < n.span.stop
  points : ∀ n ∈ tags tree, ∀ before after, source.toList = before ++ after → byteLength before = n.span.start →
    startOf n = ⟨before.count '\n', byteLength (before.rtakeWhile (· != '\n'))⟩

/-- A node that names an element, and the name: the text of an identifier, or that of a name of several parts without
white space. -/
inductive Names (source : List Char) (n : Node) : String → Prop
  | simple {text : List Char} (kind : n.kind = .identifier ∨ n.kind = .jsxIdentifier) (read : text? source n = some text) :
      Names source n (String.ofList text)
  | compound {text : List Char}
      (kind : n.kind = .memberExpression ∨ n.kind = .nestedIdentifier ∨ n.kind = .namespaceName)
      (read : text? source n = some text) : Names source n (Text.removeBlanks (String.ofList text))

/-- A tag is covered if it has a name that is not excluded and none of its own attributes is an identity. -/
structure Covered (o : Options) (source : List Char) (n : Node) : Prop where
  kind : n.kind = .openingElement ∨ n.kind = .selfClosingElement
  named : ∃ nameNode name, n.childWith .name = some nameNode ∧ Names source nameNode name ∧ name ∉ o.excluded
  bare : ∀ a ∈ n.children, a.kind = .tagAttribute → ∀ text ∈ text? source a, attributeName text ≠ identityAttribute

/-- What is inserted for a tag: behind its type arguments if it has any, and otherwise behind its name. -/
structure Covers (source : List Char) (path : String) (n : Node) (i : Insertion) : Prop where
  behindName : (∀ c ∈ n.children, c.role ≠ some .typeArguments ∧ c.kind ≠ .typeArguments) →
    ∀ nameNode, n.childWith .name = some nameNode → i.offset = nameNode.span.stop
  behindArguments : ∀ args, n.childWith .typeArguments = some args ∨ n.childWith .typeArguments = none ∧
    n.children.find? (fun c => c.kind == .typeArguments) = some args → i.offset = args.span.stop
  text : ∃ nameNode name identity, n.childWith .name = some nameNode ∧ Names source nameNode name ∧
    identityOf source path n = .ok identity ∧ i.text = tagText identity name

variable {o : Options} {source path : String} {cs : List Char} {tree n c : Node} {i : Insertion}

/-! ## Names and places -/

theorem names_iff {name : String} : Names cs n name ↔ (text? cs n).bind (nameOf? n.kind) = some name := by
  constructor
  · rintro (⟨kind, read⟩ | ⟨kind, read⟩)
    · rcases kind with kind | kind <;> rw [read, kind] <;> rfl
    · rcases kind with kind | kind | kind <;> rw [read, kind] <;> rfl
  · intro h
    obtain ⟨text, read, named⟩ := Option.bind_eq_some_iff.1 h
    unfold nameOf? at named
    split at named
    · cases named
      exact .simple (.inl ‹_›) read
    · cases named
      exact .simple (.inr ‹_›) read
    · cases named
      exact .compound (.inl ‹_›) read
    · cases named
      exact .compound (.inr (.inl ‹_›)) read
    · cases named
      exact .compound (.inr (.inr ‹_›)) read
    · cases named

/-- The place that is told for a node is the place at which it begins. -/
theorem identityAt_eq {before after : List Char} {p : Point} (whole : source.toList = before ++ after)
    (start : byteLength before = n.span.start)
    (point : p = ⟨before.count '\n', byteLength (before.rtakeWhile (· != '\n'))⟩) :
    identityAt source path p n = identityOf source.toList path n := by
  subst point
  have parts : before.rdropWhile (· != '\n') ++ before.rtakeWhile (· != '\n') = before := List.rdropWhile_append_rtakeWhile
  have length := congrArg byteLength parts
  rw [Text.byteLength_append, start] at length
  have row : Text.slice? source.toList (n.span.start - byteLength (before.rtakeWhile (· != '\n'))) n.span.start =
      some (before.rtakeWhile (· != '\n')) :=
    Text.slice?_eq_some.2 ⟨before.rdropWhile (· != '\n'), after, by rw [parts, whole], by omega, by rw [parts, start]⟩
  have place := Text.position?_of_append whole start
  rw [Position.after_eq] at place
  unfold identityAt identityOf Text.columnAt?
  dsimp only
  rw [place, if_pos (by omega)]
  simp only [row, Option.map_some, Option.bind_eq_bind, Option.bind_some]
  cases word32? (unitLength (before.rtakeWhile (· != '\n'))) with
  | none => cases word32? (before.count '\n' + 1) <;> rfl
  | some column => cases word32? (before.count '\n' + 1) <;> rfl

/-! ## One tag -/

theorem isTag_iff : isTag n = true ↔ n.kind = .openingElement ∨ n.kind = .selfClosingElement := by
  rw [isTag, Bool.or_eq_true, beq_iff_eq, beq_iff_eq]

/-- A tag is covered exactly if its name is not excluded and it has no identity yet. -/
theorem covered_iff : Covered o cs n ↔ isTag n = true ∧
    (∃ name ∈ (n.childWith .name).bind fun c => (text? cs c).bind (nameOf? c.kind), name ∉ o.excluded) ∧
    ∀ a ∈ n.children, a.kind = .tagAttribute → ∀ text ∈ text? cs a, attributeName text ≠ identityAttribute := by
  constructor
  · rintro ⟨kind, ⟨nameNode, name, child, names, included⟩, bare⟩
    exact ⟨isTag_iff.2 kind, ⟨name, Option.bind_eq_some_iff.2 ⟨nameNode, child, names_iff.1 names⟩, included⟩, bare⟩
  · rintro ⟨tag, ⟨name, named, included⟩, bare⟩
    obtain ⟨nameNode, child, names⟩ := Option.bind_eq_some_iff.1 named
    exact ⟨isTag_iff.1 tag, ⟨nameNode, name, child, names_iff.2 names, included⟩, bare⟩

instance (o : Options) (cs : List Char) (n : Node) : Decidable (Covered o cs n) :=
  decidable_of_iff _ covered_iff.symm

/-- The texts of the children of a node can be read. -/
def Readable (source : List Char) (n : Node) : Prop :=
  ∀ c ∈ n.children, ∃ text, text? source c = some text

theorem isExcluded_eq_false_iff {name : String} : o.isExcluded name = false ↔ name ∉ o.excluded := by
  rw [Options.isExcluded, ← Bool.not_eq_true, List.contains_iff_mem]

/-- Where its attributes can be read a tag carries no identity exactly if none of them is one. -/
theorem anyIdentity_eq_ok_false_iff_of_readable (read : Readable cs n) : anyIdentity cs n.children = .ok false ↔
    ∀ a ∈ n.children, a.kind = .tagAttribute → ∀ text ∈ text? cs a, attributeName text ≠ identityAttribute := by
  rw [anyIdentity_eq_ok_false_iff]
  constructor
  · intro h a ha kind text ht
    obtain ⟨name, named, other⟩ := h _ (List.mem_map.2 ⟨a, List.mem_filter.2 ⟨ha, beq_iff_eq.2 kind⟩, rfl⟩)
    rw [ht, Option.map_some] at named
    exact Option.some.inj named ▸ other
  · intro h name hname
    obtain ⟨a, ha, rfl⟩ := List.mem_map.1 hname
    obtain ⟨ha, own⟩ := List.mem_filter.1 ha
    obtain ⟨text, ht⟩ := read a ha
    exact ⟨_, by rw [ht, Option.map_some], h a ha (beq_iff_eq.1 own) text ht⟩

/-- Attributes whose texts can be read show whether there is an identity among them. -/
theorem exists_anyIdentity {ns : List Node} (read : ∀ c ∈ ns, ∃ text, text? cs c = some text) :
    ∃ found, anyIdentity cs ns = .ok found := by
  induction ns with
  | nil => exact ⟨false, rfl⟩
  | cons n ns ih =>
    obtain ⟨text, ht⟩ := read n List.mem_cons_self
    obtain ⟨found, rest⟩ := ih fun c hc => read c (List.mem_cons_of_mem _ hc)
    unfold anyIdentity isIdentity
    rw [textOf_eq_ok_iff.2 ht, rest]
    split
    · simp only [bind, Except.bind, pure, Except.pure]
      split <;> exact ⟨_, rfl⟩
    · exact ⟨_, rfl⟩

/-- A tag does not fail if the texts of its children can be read and it has a place. -/
theorem exists_insertionFor (read : Readable cs n) (located : ∃ identity, identityOf cs path n = .ok identity) :
    ∃ i?, insertionFor o cs path n = .ok i? := by
  obtain ⟨identity, hidentity⟩ := located
  obtain ⟨found, hfound⟩ := exists_anyIdentity read
  unfold insertionFor
  cases child : n.childWith .name with
  | none => exact ⟨_, rfl⟩
  | some nameNode =>
    obtain ⟨text, ht⟩ := read nameNode (List.mem_of_find?_eq_some child)
    have named : ∃ name?, elementName cs nameNode = .ok name? := by
      unfold elementName
      rw [textOf_eq_ok_iff.2 ht]
      split <;> exact ⟨_, rfl⟩
    obtain ⟨name?, hname⟩ := named
    simp only [hname, hfound, hidentity, bind, Except.bind, pure, Except.pure]
    cases name? with
    | none => exact ⟨_, rfl⟩
    | some name =>
      dsimp only
      split
      · exact ⟨_, rfl⟩
      · split <;> exact ⟨_, rfl⟩

/-- A tag that can be read and has a place gets an insertion exactly if it is covered. -/
theorem isSome_insertion?_iff_covered (tag : isTag n = true) (read : Readable cs n)
    (located : ∃ identity, identityOf cs path n = .ok identity) :
    (insertion? o cs path n).isSome = true ↔ Covered o cs n := by
  constructor
  · intro h
    obtain ⟨i, hi⟩ := Option.isSome_iff_exists.1 h
    obtain ⟨nameNode, name, identity, child, named, included, bare, -⟩ := insertion?_eq_some_iff.1 hi
    exact ⟨isTag_iff.1 tag, ⟨nameNode, name, child, names_iff.2 named, isExcluded_eq_false_iff.1 included⟩,
      (anyIdentity_eq_ok_false_iff_of_readable read).1 bare⟩
  · rintro ⟨-, ⟨nameNode, name, child, names, included⟩, bare⟩
    obtain ⟨identity, hidentity⟩ := located
    exact Option.isSome_iff_exists.2 ⟨_, insertion?_eq_some_iff.2 ⟨nameNode, name, identity, child, names_iff.1 names,
      isExcluded_eq_false_iff.2 included, (anyIdentity_eq_ok_false_iff_of_readable read).2 bare, hidentity, rfl⟩⟩

theorem typeArguments?_eq_none_iff : typeArguments? n = none ↔
    ∀ c ∈ n.children, c.role ≠ some .typeArguments ∧ c.kind ≠ .typeArguments := by
  unfold typeArguments? Node.childWith
  simp only [Option.or_eq_none_iff, List.find?_eq_none, beq_iff_eq]
  exact ⟨fun h c hc => ⟨h.1 c hc, h.2 c hc⟩, fun h => ⟨fun c hc => (h c hc).1, fun c hc => (h c hc).2⟩⟩

/-- An insertion covers the tag for which it is made. -/
theorem covers_of_insertion? (h : insertion? o cs path n = some i) : Covers cs path n i := by
  obtain ⟨nameNode, name, identity, child, named, -, -, located, rfl⟩ := insertion?_eq_some_iff.1 h
  refine ⟨fun none nameNode' child' => ?_, fun args hargs => ?_, nameNode, name, identity, child, names_iff.2 named,
    located, rfl⟩
  · cases child.symm.trans child'
    rw [typeArguments?_eq_none_iff.2 none]
    rfl
  · have found : typeArguments? n = some args := Option.or_eq_some_iff.2 hargs
    rw [found]
    rfl

/-! ## All tags -/

/-- Tags that can be read add no failures. -/
theorem failures_foldl {ns : List Node} (h : ∀ n ∈ ns, isTag n = true → ∃ i?, insertionFor o cs path n = .ok i?)
    (done : EditList × Nat) : (ns.foldl (recordTag o cs path) done).2 = done.2 := by
  induction ns generalizing done with
  | nil => rfl
  | cons n ns ih =>
    rw [List.foldl_cons, ih fun m hm => h m (List.mem_cons_of_mem _ hm)]
    unfold recordTag
    split
    · rename_i tag
      obtain ⟨i?, hi⟩ := h n List.mem_cons_self tag
      rw [hi]
      cases i? with
      | none => rfl
      | some i => rfl
    · rfl

/-- What a function finds for the members of a list, beside the members for which it finds something. -/
theorem forall₂_filterMap {α β : Type} {f : α → Option β} {P : α → Bool} {R : α → β → Prop} {as : List α}
    (found : ∀ a ∈ as, (f a).isSome = P a) (holds : ∀ a b, f a = some b → R a b) :
    List.Forall₂ R (as.filter P) (as.filterMap f) := by
  induction as with
  | nil => exact .nil
  | cons a as ih =>
    have rest := ih fun b hb => found b (List.mem_cons_of_mem _ hb)
    have first := found a List.mem_cons_self
    cases ha : f a with
    | none =>
      rw [ha] at first
      rwa [List.filterMap_cons_none ha, List.filter_cons_of_neg (by rw [← first]; exact Bool.false_ne_true)]
    | some b =>
      rw [ha] at first
      rw [List.filterMap_cons_some ha, List.filter_cons_of_pos first.symm]
      exact .cons (holds a b ha) rest

theorem WellPlaced.readable {startOf : Node → Point} (h : WellPlaced source startOf tree) (hn : n ∈ tree.preorder) :
    Readable source.toList n := by
  intro c hc
  obtain ⟨before, text, after, range⟩ := h.ranges c (mem_preorder_of_mem_children hc tree hn)
  exact ⟨text, Text.slice?_eq_some.2 ⟨before, after, range⟩⟩

/-- In a source below 4 GiB each tag has a place, and it is the one that is told. -/
theorem WellPlaced.located {startOf : Node → Point} (h : WellPlaced source startOf tree)
    (small : source.utf8ByteSize < UInt32.size) (hn : n ∈ tags tree) (path : String) :
    identityAt source path (startOf n) n = identityOf source.toList path n ∧
      ∃ identity, identityOf source.toList path n = .ok identity := by
  obtain ⟨before, text, after, whole, start, stop⟩ := h.ranges n (List.mem_filter.1 hn).1
  have behind : source.toList = before ++ (text ++ after) := by rw [whole, List.append_assoc]
  refine ⟨identityAt_eq behind start (h.points n hn before _ behind start), ?_⟩
  cases text with
  | nil =>
    have some := h.nonempty n hn
    rw [List.append_nil, start] at stop
    omega
  | cons c text =>
    rw [List.cons_append] at behind
    exact identityOf_of_begins behind start (by rwa [Text.byteLength_toList])

/-- The loop visits the nodes of a tree in preorder. Each covered tag that it meets gets one insertion, in that order, and
no other node does; none fails. -/
theorem collect_covers (o : Options) (path : String) {startOf : Node → Point} (placed : WellPlaced source startOf tree)
    (small : source.utf8ByteSize < UInt32.size) :
    (TreeCursor.top tree).visit (fun visited n => visited ++ [n]) [] = tree.preorder ∧
      collect o source path tree = editsOf o source path tree ∧
      (∀ n ∈ tags tree, identityAt source path (startOf n) n = identityOf source.toList path n) ∧
      List.Forall₂ (Covers source.toList path) (tree.preorder.filter fun n => Covered o source.toList n)
        (collect o source path tree).1.insertions ∧
      (collect o source path tree).2 = 0 := by
  have same : collect o source path tree = editsOf o source path tree := TreeCursor.visit_top _ _ tree
  have located (n : Node) (hn : n ∈ tags tree) := placed.located small hn path
  refine ⟨?_, same, fun n hn => (located n hn).1, ?_, ?_⟩
  · rw [TreeCursor.visit_top, List.foldl_append_eq_append, List.nil_append, ← List.flatMap_def, List.flatMap_singleton']
  · rw [same, insertions_editsOf]
    -- what is covered is a tag, so nothing is lost when the other nodes are left out
    have covered : tree.preorder.filter (fun n => Covered o source.toList n) =
        (tags tree).filter fun n => Covered o source.toList n := by
      unfold tags
      rw [List.filter_filter]
      refine List.filter_congr fun n _ => ?_
      by_cases h : Covered o source.toList n
      · simp [h, isTag_iff.2 h.kind]
      · simp [h]
    rw [covered]
    refine forall₂_filterMap (fun n hn => ?_) fun n i h => covers_of_insertion? h
    have tag := List.mem_filter.1 hn
    rw [Bool.eq_iff_iff, decide_eq_true_iff]
    exact isSome_insertion?_iff_covered tag.2 (placed.readable tag.1) (located n hn).2
  · rw [same]
    refine failures_foldl (fun n hn tag => ?_) _
    have hn' : n ∈ tags tree := List.mem_filter.2 ⟨hn, tag⟩
    exact exists_insertionFor (placed.readable hn) (located n hn').2

/-- The row and the column of the place at which a node begins. -/
def pointOf (source : String) (n : Node) : Point :=
  let before := ((Text.splitAtByte? n.span.start source.toList).map Prod.fst).getD []
  ⟨before.count '\n', byteLength (before.rtakeWhile (· != '\n'))⟩

/-- Type arguments, a name of two parts on a line of its own, an excluded name and an identity. -/
def mixedSource : String :=
  "<L<A> b>\n<m . n/><Fragment/><p data-sg-el=\"\"/></L>"

theorem collect_covers_generic :
    ∃ tree, Tsx.parse mixedSource = some tree ∧ WellPlaced mixedSource (pointOf mixedSource) tree ∧
      (collect {} mixedSource "a.tsx" tree).1.insertions.map Insertion.offset = [5, 15] ∧
      (collect {} mixedSource "a.tsx" tree).2 = 0 := by
  have read : (Tsx.parse mixedSource).any (fun tree =>
      (tree.preorder.all fun n => (text? mixedSource.toList n).isSome) &&
      (tags tree).all (fun n => n.span.start < n.span.stop) &&
      decide ((editsOf {} mixedSource "a.tsx" tree).1.insertions.map Insertion.offset = [5, 15])) = true := by
    decide +kernel
  cases parsed : Tsx.parse mixedSource with
  | none =>
    rw [parsed] at read
    cases read
  | some tree =>
    rw [parsed, Option.any_some, Bool.and_eq_true, Bool.and_eq_true, decide_eq_true_eq] at read
    obtain ⟨⟨texts, nonempty⟩, offsets⟩ := read
    have placed : WellPlaced mixedSource (pointOf mixedSource) tree := by
      refine ⟨inRange_of_texts (List.all_eq_true.1 texts), fun n hn => ?_, fun n _ before after whole start => ?_⟩
      · exact of_decide_eq_true (List.all_eq_true.1 nonempty n hn)
      · rw [pointOf, Text.splitAtByte?_eq_some.2 ⟨whole, start⟩]
        rfl
    obtain ⟨-, same, -, -, failed⟩ := collect_covers {} "a.tsx" placed (by decide +kernel)
    exact ⟨tree, rfl, placed, same ▸ offsets, failed⟩

end InPlace.Tagging

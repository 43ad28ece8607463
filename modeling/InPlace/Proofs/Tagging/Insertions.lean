import InPlace.Proofs.Text.Units
import InPlace.Tagging.Tagger

/-!
# What the tagger inserts

The insertions for a file are those for its tags, in the order of the tags. Whether there is one for a tag is
decided by what is read of the tag, its name and the names of its attributes; the place of the tag has a line
and a column in every text below 4 GiB.

Main statements: `insertions_editsOf`, `insertion?_eq_some_iff` and `isSome_insertion?_iff`.
-/

namespace InPlace.Tagging

open Tsx (Node NodeKind)
open Text (Position byteLength)

/-- The tags of a tree, in the order of the source. -/
def tags (tree : Node) : List Node :=
  tree.preorder.filter isTag

/-- Whether a node is an attribute of a tag. -/
def isAttribute (n : Node) : Bool :=
  n.kind == .tagAttribute

/-- The insertion for a tag, if there is one and it does not fail. -/
def insertion? (o : Options) (source : List Char) (path : String) (n : Node) : Option Insertion :=
  match insertionFor o source path n with
  | .ok i => i
  | .error _ => none

/-- The insertions of a file are those for its tags. -/
theorem insertions_editsOf (o : Options) (source path : String) (tree : Node) :
    (editsOf o source path tree).1.insertions =
      (tags tree).filterMap (insertion? o source.toList path) := by
  -- on the nodes, behind any insertions that were recorded before
  have recorded : ∀ (ns : List Node) (done : EditList × Nat),
      (ns.foldl (recordTag o source.toList path) done).1.insertions =
        done.1.insertions ++ (ns.filter isTag).filterMap (insertion? o source.toList path) := by
    intro ns
    induction ns with
    | nil => exact fun done => (List.append_nil _).symm
    | cons n ns ih =>
      intro done
      rw [List.foldl_cons, ih]
      unfold recordTag
      by_cases hn : isTag n = true
      · rw [if_pos hn, List.filter_cons_of_pos hn, List.filterMap_cons]
        unfold insertion?
        cases insertionFor o source.toList path n with
        | ok i =>
          cases i with
          | none => rfl
          | some i => simp [EditList.insert]
        | error fault => rfl
      · rw [if_neg hn, List.filter_cons_of_neg hn]
  exact recorded tree.preorder (.empty, 0)

/-! ## What is read of a tag -/

/-- The name of an element by the kind and the text of the node, as far as it has one. -/
def nameOf? (kind : NodeKind) (text : List Char) : Option String :=
  match kind with
  | .identifier | .jsxIdentifier => some (String.ofList text)
  | .memberExpression | .nestedIdentifier | .namespaceName =>
    some (Text.removeBlanks (String.ofList text))
  | _ => none

/-- The name of an attribute: what is before its first equals sign, without the blanks around it. -/
def attributeName (text : List Char) : String :=
  Text.trim (String.ofList (text.takeWhile (· != '=')))

/-- What is read of a tag: the kind and the text of its name, and the names of its attributes. What cannot be
read is none. -/
structure Reading where
  name : Option (NodeKind × Option (List Char))
  attributes : List (Option String)
  deriving DecidableEq

/-- The text of a node, if it has one in the source. -/
def text? (source : List Char) (n : Node) : Option (List Char) :=
  Text.slice? source n.span.start n.span.stop

/-- What the tagger reads from a tag. -/
def reading (source : List Char) (n : Node) : Reading where
  name := (n.childWith .name).map fun c => (c.kind, text? source c)
  attributes := (n.children.filter isAttribute).map fun c => (text? source c).map attributeName

namespace Reading

/-- The name of the element. -/
def element? (r : Reading) : Option String :=
  r.name.bind fun (kind, text) => text.bind (nameOf? kind)

/-- Whether a tag of which this is read gets an identity: it has a name that is not excluded, and none of its
attributes is one. -/
structure Taggable (o : Options) (r : Reading) : Prop where
  name : ∃ name, r.element? = some name ∧ o.isExcluded name = false
  attributes : ∀ a ∈ r.attributes, ∃ name, a = some name ∧ name ≠ identityAttribute

end Reading

section

variable {o : Options} {source : List Char} {path : String} {n : Node} {i : Insertion}

theorem textOf_eq_ok_iff {cs : List Char} : textOf source n = .ok cs ↔ text? source n = some cs := by
  unfold textOf text?
  cases Text.slice? source n.span.start n.span.stop <;> simp

/-- The name of an element is found by the kind and the text of its node. -/
theorem elementName_eq_ok_iff {name : String} :
    elementName source n = .ok (some name) ↔ (text? source n).bind (nameOf? n.kind) = some name := by
  have read : ∀ cs, textOf source n = .ok cs ↔ text? source n = some cs := fun cs => textOf_eq_ok_iff
  unfold elementName
  cases ht : text? source n with
  | none =>
    have unread : ∃ fault, textOf source n = .error fault := by
      cases hr : textOf source n with
      | ok cs => exact absurd (ht.symm.trans ((read cs).1 hr)) (by simp)
      | error fault => exact ⟨fault, rfl⟩
    obtain ⟨fault, hf⟩ := unread
    cases n.kind <;> simp [hf, bind, Except.bind]
  | some cs =>
    rw [(read cs).2 ht]
    cases n.kind <;> simp [nameOf?, bind, Except.bind, pure, Except.pure]

/-- None of the nodes is an attribute for identities exactly if all names of attributes can be read and none is
the one for identities. -/
theorem anyIdentity_eq_ok_false_iff {ns : List Node} :
    anyIdentity source ns = .ok false ↔
      ∀ a ∈ (ns.filter isAttribute).map fun c => (text? source c).map attributeName,
        ∃ name, a = some name ∧ name ≠ identityAttribute := by
  induction ns with
  | nil => simp [anyIdentity]
  | cons n ns ih =>
    -- the search ends at the first attribute that cannot be read or is the one for identities
    by_cases hn : isAttribute n = true
    · have kind : n.kind = .tagAttribute := beq_iff_eq.1 hn
      rw [List.filter_cons_of_pos hn, List.map_cons, List.forall_mem_cons, ← ih]
      cases ht : text? source n with
      | none =>
        have unread : ¬ ∃ cs, textOf source n = .ok cs := by
          rintro ⟨cs, hcs⟩
          exact absurd (ht.symm.trans (textOf_eq_ok_iff.1 hcs)) (by simp)
        cases hr : textOf source n with
        | ok cs => exact absurd ⟨cs, hr⟩ unread
        | error fault => simp [anyIdentity, isIdentity, kind, hr, bind, Except.bind]
      | some cs =>
        have known : isIdentity source n = .ok (attributeName cs == identityAttribute) := by
          simp [isIdentity, kind, textOf_eq_ok_iff.2 ht, bind, Except.bind, pure, Except.pure, attributeName]
        by_cases hname : attributeName cs = identityAttribute
        · simp [anyIdentity, known, hname, bind, Except.bind, pure, Except.pure]
        · simp [anyIdentity, known, hname, bind, Except.bind]
    · rw [List.filter_cons_of_neg hn, ← ih]
      have other : isIdentity source n = .ok false := by
        unfold isIdentity
        exact if_neg hn
      simp [anyIdentity, other, bind, Except.bind]

/-! ## The insertion for a tag -/

/-- A tag has an insertion if it has a name that is not excluded, no attribute for identities and a place. -/
theorem insertion?_eq_some_iff :
    insertion? o source path n = some i ↔ ∃ nameNode name identity,
      n.childWith .name = some nameNode ∧
      (text? source nameNode).bind (nameOf? nameNode.kind) = some name ∧ o.isExcluded name = false ∧
      anyIdentity source n.children = .ok false ∧ identityOf source path n = .ok identity ∧
      i = ⟨((typeArguments? n).getD nameNode).span.stop, tagText identity name⟩ := by
  unfold insertion? insertionFor
  cases n.childWith .name with
  | none => simp [pure, Except.pure]
  | some nameNode =>
    simp only [Option.some.injEq, exists_and_left, exists_eq_left']
    simp only [← elementName_eq_ok_iff]
    cases elementName source nameNode with
    | error fault => simp [bind, Except.bind]
    | ok name? =>
      cases name? with
      | none => simp [bind, Except.bind, pure, Except.pure]
      | some name =>
        simp only [bind, Except.bind, pure, Except.pure, Except.ok.injEq, Option.some.injEq,
          exists_eq_left']
        by_cases hex : o.isExcluded name = true
        · simp [hex]
        · simp only [hex, Bool.false_eq_true, if_false]
          cases anyIdentity source n.children with
          | error fault => simp
          | ok found =>
            cases found with
            | true => simp
            | false =>
              cases identityOf source path n with
              | error fault => simp
              | ok identity => simp [eq_comm]

/-- What is read of a tag with an insertion allows it. -/
theorem taggable_of_insertion? (h : insertion? o source path n = some i) :
    (reading source n).Taggable o := by
  obtain ⟨nameNode, name, identity, named, read, included, bare, -, -⟩ := insertion?_eq_some_iff.1 h
  refine ⟨⟨name, ?_, included⟩, anyIdentity_eq_ok_false_iff.1 bare⟩
  rw [Reading.element?, reading, named]
  exact read

/-- A tag with a place has an insertion exactly if what is read of it allows one. -/
theorem isSome_insertion?_iff (located : ∃ identity, identityOf source path n = .ok identity) :
    (insertion? o source path n).isSome = true ↔ (reading source n).Taggable o := by
  constructor
  · intro h
    obtain ⟨i, hi⟩ := Option.isSome_iff_exists.1 h
    exact taggable_of_insertion? hi
  · rintro ⟨⟨name, element, included⟩, attributes⟩
    obtain ⟨identity, hidentity⟩ := located
    obtain ⟨⟨kind, text⟩, named, read⟩ := Option.bind_eq_some_iff.1 element
    obtain ⟨nameNode, child, heq⟩ := Option.map_eq_some_iff.1 named
    cases heq
    exact Option.isSome_iff_exists.2 ⟨_, insertion?_eq_some_iff.2
      ⟨nameNode, name, identity, child, read, included, anyIdentity_eq_ok_false_iff.2 attributes, hidentity,
        rfl⟩⟩

/-! ## Places -/

theorem word32?_of_lt {k : Nat} (h : k < UInt32.size) : word32? k = some (UInt32.ofNat k) :=
  if_pos h

/-- A tag that begins at a character has a place in a text below 4 GiB. -/
theorem identityOf_of_begins {before after : List Char} {c : Char} (h : source = before ++ c :: after)
    (hlen : byteLength before = n.span.start) (hsize : byteLength source < UInt32.size) :
    ∃ identity, identityOf source path n = .ok identity := by
  have at? := Text.position?_of_append h hlen
  obtain ⟨line, column⟩ := Text.after_le ⟨0, 0⟩ before
  have bound : byteLength before + 1 < UInt32.size := by
    rw [h, Text.byteLength_append] at hsize
    have positive := c.utf8Size_pos
    simp only [byteLength] at hsize
    omega
  refine ⟨Identity.encode path (UInt32.ofNat ((Position.after ⟨0, 0⟩ before).line + 1))
    (UInt32.ofNat (Position.after ⟨0, 0⟩ before).column), ?_⟩
  unfold identityOf
  rw [at?]
  dsimp only at line column
  have line32 := word32?_of_lt (k := (Position.after ⟨0, 0⟩ before).line + 1) (by omega)
  have column32 := word32?_of_lt (k := (Position.after ⟨0, 0⟩ before).column) (by omega)
  simp [line32, column32]

end

end InPlace.Tagging

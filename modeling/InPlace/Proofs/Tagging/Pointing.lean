import InPlace.Proofs.Tagging.Additions
import InPlace.Proofs.Text.Identity
import InPlace.Proofs.Text.Places

/-!
# Identities point at their tags

The text that is inserted into a tag holds the name of the element and an identity, both escaped. The identity is
read back as the path of the file with the line and the column at which the tag begins, so tags that begin at
different places get different identities.

Main statements: `identityOf_eq_ok`, `Tagged.Truthful.start_eq` and `editsOf_truthful`.
-/

namespace InPlace.Tagging

open Tsx (Node)
open Text (Position byteLength unitLength)

/-- A tag, and the values of the two attributes that it gets at a distance of `offset` bytes. -/
structure Tagged where
  tag : Node
  offset : Nat
  identity : String
  name : String

namespace Tagged

/-- The insertion that names a tag and says where it stands. -/
def insertion (t : Tagged) : Insertion :=
  ⟨t.offset, " data-sg-el=\"" ++ t.identity ++ "\" data-sg-name=\"" ++ t.name ++ "\""⟩

/-- What the attributes of a tag say of it in the file at `path`. -/
structure Truthful (t : Tagged) (source : List Char) (path : String) : Prop where
  /-- The attributes are put behind a child of the tag. -/
  own : ∃ c ∈ t.tag.children, t.offset = c.span.stop
  identityEscaped : ∀ c ∈ reserved, c ∉ t.identity.toList
  nameEscaped : ∀ c ∈ reserved, c ∉ t.name.toList
  named : ∃ nameNode, t.tag.childWith .name = some nameNode ∧
    elementName source nameNode = .ok (some (unescapeAttribute t.name))
  /-- The identity stands for the path, the line counted from one, and the column in units. -/
  pointed : ∃ before after i, source = before ++ after ∧ byteLength before = t.tag.span.start ∧
    Identity.parse? (unescapeAttribute t.identity) = some i ∧ i.path = path ∧
    i.line.toNat = 1 + before.count '\n' ∧
    i.column.toNat = unitLength (before.rtakeWhile (· != '\n'))

end Tagged

section

variable {o : Options} {source : List Char} {path : String} {n : Node} {i : Insertion}

/-! ## One tag -/

theorem toNat_of_word32? {k : Nat} {w : UInt32} (h : word32? k = some w) : w.toNat = k := by
  unfold word32? at h
  split at h
  · rename_i hk
    cases h
    exact UInt32.toNat_ofNat_of_lt hk
  · cases h

/-- The identity of a node is that of the line and the column at which it begins. -/
theorem identityOf_eq_ok {identity : String} (h : identityOf source path n = .ok identity) :
    ∃ before after line column, source = before ++ after ∧ byteLength before = n.span.start ∧
      line.toNat = 1 + before.count '\n' ∧ column.toNat = unitLength (before.rtakeWhile (· != '\n')) ∧
      identity = Identity.encode path line column := by
  unfold identityOf at h
  dsimp only at h
  split at h
  · rename_i at?
    cases h
    obtain ⟨p, hp, words⟩ := Option.bind_eq_some_iff.1 at?
    obtain ⟨line, hline, words⟩ := Option.bind_eq_some_iff.1 words
    obtain ⟨column, hcolumn, encoded⟩ := Option.bind_eq_some_iff.1 words
    obtain ⟨⟨before, after⟩, hsplit, hafter⟩ := Option.map_eq_some_iff.1 hp
    obtain ⟨whole, start⟩ := Text.splitAtByte?_eq_some.1 hsplit
    have place : Position.after ⟨0, 0⟩ before = p := hafter
    rw [Position.after_eq] at place
    subst place
    refine ⟨before, after, line, column, whole, start, ?_, toNat_of_word32? hcolumn,
      (Option.some.inj encoded).symm⟩
    exact (toNat_of_word32? hline).trans (Nat.add_comm _ 1)
  · cases h

/-- What is inserted into a tag tells the truth about it. -/
theorem exists_tagged (hpath : path ≠ "") (h : insertion? o source path n = some i) :
    ∃ t : Tagged, t.tag = n ∧ t.insertion = i ∧ t.Truthful source path := by
  have own := offset_of_insertion? h
  obtain ⟨nameNode, name, identity, child, resolved, -, -, located, rfl⟩ := insertion?_eq_some_iff.1 h
  obtain ⟨before, after, line, column, whole, start, hline, hcolumn, rfl⟩ := identityOf_eq_ok located
  refine ⟨⟨n, _, escapeAttribute (Identity.encode path line column), escapeAttribute name⟩, rfl, ?_, own,
    fun c hc => not_mem_escapeAttribute hc _, fun c hc => not_mem_escapeAttribute hc _,
    ⟨nameNode, child, ?_⟩, before, after, .ofPlace path line column, whole, start, ?_, rfl, hline, hcolumn⟩
  · exact congrArg (Insertion.mk _) (tagText_eq _ name).symm
  · rw [unescapeAttribute_escapeAttribute]
    exact elementName_eq_ok_iff.2 resolved
  · rw [unescapeAttribute_escapeAttribute, Identity.parse?_encode hpath]

/-- Tags with the same identity begin at the same place. -/
theorem Tagged.Truthful.start_eq {t u : Tagged} (ht : t.Truthful source path) (hu : u.Truthful source path)
    (h : unescapeAttribute t.identity = unescapeAttribute u.identity) :
    t.tag.span.start = u.tag.span.start := by
  obtain ⟨before, after, i, whole, start, parsed, -, line, column⟩ := ht.pointed
  obtain ⟨before', after', i', whole', start', parsed', -, line', column'⟩ := hu.pointed
  have same : i = i' := by
    rw [h, parsed'] at parsed
    exact (Option.some.inj parsed).symm
  subst same
  have place : Position.after ⟨0, 0⟩ before = Position.after ⟨0, 0⟩ before' := by
    rw [Position.after_eq, Position.after_eq, Position.mk.injEq]
    exact ⟨by omega, column.symm.trans column'⟩
  rw [← start, ← start', Position.eq_of_after_eq (whole.symm.trans whole') place]

end

/-! ## All tags of a file -/

/-- What a function finds for the members of a list, each told together with its member. -/
theorem exists_sublist_of_filterMap {α β γ : Type} {f : α → Option β} {origin : γ → α} {value : γ → β}
    {P : γ → Prop} (found : ∀ a b, f a = some b → ∃ c, origin c = a ∧ value c = b ∧ P c) (as : List α) :
    ∃ cs : List γ, (cs.map origin).Sublist as ∧ as.filterMap f = cs.map value ∧ ∀ c ∈ cs, P c := by
  induction as with
  | nil => exact ⟨[], .slnil, rfl, List.forall_mem_nil _⟩
  | cons a as ih =>
    obtain ⟨cs, sub, values, all⟩ := ih
    cases hf : f a with
    | none => exact ⟨cs, sub.cons a, by rw [List.filterMap_cons_none hf, values], all⟩
    | some b =>
      obtain ⟨c, rfl, rfl, hc⟩ := found a b hf
      exact ⟨c :: cs, sub.cons_cons _, by rw [List.filterMap_cons_some hf, values, List.map_cons],
        List.forall_mem_cons.2 ⟨hc, all⟩⟩

/-- The insertions for a file belong to tags of it, at most one to each, and tell the truth about them. No two of
them hold the same identity. -/
theorem editsOf_truthful (o : Options) (source : String) {path : String} (tree : Node) (hpath : path ≠ "")
    (apart : (tags tree).Pairwise fun m n => m.span.start ≠ n.span.start) :
    ∃ ts : List Tagged, (ts.map Tagged.tag).Sublist (tags tree) ∧
      (editsOf o source path tree).1.insertions = ts.map Tagged.insertion ∧
      (∀ t ∈ ts, t.Truthful source.toList path) ∧
      (ts.map fun t => unescapeAttribute t.identity).Nodup := by
  obtain ⟨ts, sub, insertions, truthful⟩ := exists_sublist_of_filterMap
    (fun n i (h : insertion? o source.toList path n = some i) => exists_tagged hpath h) (tags tree)
  refine ⟨ts, sub, (insertions_editsOf o source path tree).trans insertions, truthful, ?_⟩
  have starts := List.pairwise_map.1 (apart.sublist sub)
  refine List.pairwise_map.2 (starts.imp_of_mem fun ht hu different same => ?_)
  exact different ((truthful _ ht).start_eq (truthful _ hu) same)

/-- Tags behind a character of two units, in a file with a colon, an ampersand and a quotation mark in its path. -/
theorem editsOf_truthful_astral :
    let source := "<p>\n😀<b/><i/></p>"
    let path := "C:/a&b\".tsx"
    ∃ tree, Tsx.parse source = some tree ∧ ∃ ts : List Tagged,
      ts.map Tagged.insertion =
        [⟨2, " data-sg-el=\"C:/a&amp;b&quot;.tsx:1:0\" data-sg-name=\"p\""⟩,
          ⟨10, " data-sg-el=\"C:/a&amp;b&quot;.tsx:2:2\" data-sg-name=\"b\""⟩,
          ⟨14, " data-sg-el=\"C:/a&amp;b&quot;.tsx:2:6\" data-sg-name=\"i\""⟩] ∧
      (∀ t ∈ ts, t.Truthful source.toList path) ∧
      (ts.map fun t => unescapeAttribute t.identity).Nodup := by
  have read : (Tsx.parse "<p>\n😀<b/><i/></p>").any (fun tree =>
      decide ((tags tree).Pairwise fun m n => m.span.start ≠ n.span.start) &&
      decide ((editsOf {} "<p>\n😀<b/><i/></p>" "C:/a&b\".tsx" tree).1.insertions =
        [⟨2, " data-sg-el=\"C:/a&amp;b&quot;.tsx:1:0\" data-sg-name=\"p\""⟩,
          ⟨10, " data-sg-el=\"C:/a&amp;b&quot;.tsx:2:2\" data-sg-name=\"b\""⟩,
          ⟨14, " data-sg-el=\"C:/a&amp;b&quot;.tsx:2:6\" data-sg-name=\"i\""⟩])) = true := by
    decide +kernel
  cases parsed : Tsx.parse "<p>\n😀<b/><i/></p>" with
  | none =>
    rw [parsed] at read
    cases read
  | some tree =>
    rw [parsed, Option.any_some, Bool.and_eq_true, decide_eq_true_eq, decide_eq_true_eq] at read
    obtain ⟨ts, -, insertions, truthful, different⟩ :=
      editsOf_truthful {} "<p>\n😀<b/><i/></p>" tree (show "C:/a&b\".tsx" ≠ "" by decide) read.1
    exact ⟨tree, parsed, ts, insertions.symm.trans read.2, truthful, different⟩

end InPlace.Tagging

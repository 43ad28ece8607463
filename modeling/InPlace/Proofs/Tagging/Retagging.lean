import InPlace.Proofs.Tagging.Attributes
import InPlace.Proofs.Tagging.Insertions

/-!
# Tagging twice

What was tagged is not changed when it is tagged again. A tag that got an identity is recognised by its
attributes, and one that got none is read as before, so it gets none again. This needs a parser by which
attributes that are put into tags become attributes of these tags, and nothing else is read differently.

Main statement: `tagWith_tagWith`.
-/

namespace InPlace.Tagging

open Tsx (Node)
open Text (byteLength)

/-! ## Attributes put into tags -/

/-- The insertion of attributes into a tag: behind its type arguments, or behind its name. -/
def attributeInsertion? (attributes : Node → List Attribute) (n : Node) : Option Insertion :=
  if attributes n = [] then none
  else (n.childWith .name).map fun nameNode =>
    ⟨((typeArguments? n).getD nameNode).span.stop, String.ofList (attributesText (attributes n))⟩

/-- The insertions of attributes into the tags of a tree. -/
def attributeEdits (attributes : Node → List Attribute) (tree : Node) : EditList :=
  ⟨(tags tree).filterMap (attributeInsertion? attributes)⟩

/-- What is read of a tag after attributes were put into it. -/
def Reading.extend (r : Reading) (as : List Attribute) : Reading :=
  { r with attributes := as.map (fun a => some a.name) ++ r.attributes }

/-- What is relied on of a parser at a source: its tags begin at characters of the source, and if plain
attributes are put into tags with names, then the text is not accepted, or it has the same tags in the same
order, with the same names and attributes and with the new attributes. -/
structure TakesAttributes (parse : String → Option Node) (source : String) : Prop where
  begins : ∀ tree, parse source = some tree → ∀ n ∈ tags tree, ∃ before c after,
    source.toList = before ++ c :: after ∧ byteLength before = n.span.start
  takes : ∀ tree, parse source = some tree → ∀ attributes : Node → List Attribute,
    (∀ n, ∀ a ∈ attributes n, a.Plain) → (∀ n, n.childWith .name = none → attributes n = []) →
    ∀ code, (attributeEdits attributes tree).apply source = .ok code →
    ∀ tree', parse code = some tree' → (tags tree').map (reading code.toList) =
      (tags tree).map fun n => (reading source.toList n).extend (attributes n)

section

variable {o : Options} {source : List Char} {path : String} {n : Node}

/-- The attributes that the tagger puts into a tag. -/
def ownAttributes (o : Options) (source : List Char) (path : String) (n : Node) : List Attribute :=
  match (insertion? o source path n).isSome, (reading source n).element?, identityOf source path n with
  | true, some name, .ok identity => identityAttributes identity name
  | _, _, _ => []

theorem ownAttributes_of_none (h : insertion? o source path n = none) :
    ownAttributes o source path n = [] := by
  unfold ownAttributes
  rw [h]
  rfl

/-- The insertion for a tag is that of its attributes. -/
theorem ownAttributes_of_some {i : Insertion} (h : insertion? o source path n = some i) :
    ∃ identity name, ownAttributes o source path n = identityAttributes identity name ∧
      attributeInsertion? (ownAttributes o source path) n = some i := by
  obtain ⟨nameNode, name, identity, named, read, -, -, located, rfl⟩ := insertion?_eq_some_iff.1 h
  have element : (reading source n).element? = some name := by
    rw [Reading.element?, reading, named]
    exact read
  have own : ownAttributes o source path n = identityAttributes identity name := by
    unfold ownAttributes
    rw [h, element, located]
    rfl
  refine ⟨identity, name, own, ?_⟩
  unfold attributeInsertion?
  rw [own, if_neg (by simp [identityAttributes]), named, ← toList_tagText, String.ofList_toList]
  rfl

/-- The attributes that the tagger adds have plain names and escaped values. -/
theorem plain_ownAttributes (o : Options) (source : List Char) (path : String) (n : Node) :
    ∀ a ∈ ownAttributes o source path n, a.Plain := by
  cases h : insertion? o source path n with
  | none =>
    rw [ownAttributes_of_none h]
    exact List.forall_mem_nil _
  | some i =>
    obtain ⟨identity, name, own, -⟩ := ownAttributes_of_some h
    rw [own]
    exact plain_identityAttributes identity name

/-- A tag without a name gets no attributes. -/
theorem ownAttributes_of_unnamed (h : n.childWith .name = none) : ownAttributes o source path n = [] := by
  refine ownAttributes_of_none ?_
  cases hi : insertion? o source path n with
  | none => rfl
  | some i =>
    obtain ⟨nameNode, -, -, named, -⟩ := insertion?_eq_some_iff.1 hi
    rw [h] at named
    cases named

/-- The tagger inserts attributes, or nothing. -/
theorem insertion?_eq_attributeInsertion? (o : Options) (source : List Char) (path : String) (n : Node) :
    insertion? o source path n = attributeInsertion? (ownAttributes o source path) n := by
  cases h : insertion? o source path n with
  | none =>
    unfold attributeInsertion?
    rw [ownAttributes_of_none h]
    rfl
  | some i =>
    obtain ⟨-, -, -, inserted⟩ := ownAttributes_of_some h
    exact inserted.symm

/-- The tagger puts its attributes into the tags. -/
theorem editsOf_eq_attributeEdits (o : Options) (source path : String) (tree : Node) :
    (editsOf o source path tree).1 = attributeEdits (ownAttributes o source.toList path) tree := by
  have same : insertion? o source.toList path =
      attributeInsertion? (ownAttributes o source.toList path) :=
    funext (insertion?_eq_attributeInsertion? o source.toList path)
  rw [attributeEdits, ← same, ← insertions_editsOf]

/-! ## The second time -/

/-- A tag with an attribute for identities gets no other. -/
theorem not_taggable_extend (r : Reading) (identity name : String) :
    ¬ (r.extend (identityAttributes identity name)).Taggable o := by
  rintro ⟨-, attributes⟩
  obtain ⟨name, heq, hne⟩ := attributes (some identityAttribute)
    (by simp [Reading.extend, identityAttributes])
  exact hne (Option.some.inj heq).symm

end

variable {parse : String → Option Node} {o : Options} {source path : String}

/-- Once its own attributes are in the tags, the tagger has nothing to insert. -/
theorem insertions_retagged (law : TakesAttributes parse source) (hsize : source.utf8ByteSize < UInt32.size)
    {tree tree' : Node} {code : String} (htree : parse source = some tree)
    (hcode : (editsOf o source path tree).1.apply source = .ok code) (htree' : parse code = some tree') :
    (editsOf o code path tree').1 = .empty := by
  have taken := law.takes tree htree (ownAttributes o source.toList path)
    (plain_ownAttributes o source.toList path) (fun n hn => ownAttributes_of_unnamed hn) code
    (editsOf_eq_attributeEdits o source path tree ▸ hcode) tree' htree'
  have nothing : ∀ n' ∈ tags tree', insertion? o code.toList path n' = none := by
    intro n' hn'
    -- the tag was there the first time, and was read the same but for what it got then
    have read : reading code.toList n' ∈ (tags tree).map fun n =>
        (reading source.toList n).extend (ownAttributes o source.toList path n) :=
      taken ▸ List.mem_map_of_mem hn'
    obtain ⟨n, hn, heq⟩ := List.mem_map.1 read
    refine Option.eq_none_iff_forall_not_mem.2 fun i hi => ?_
    have taggable := taggable_of_insertion? (Option.mem_def.1 hi)
    rw [← heq] at taggable
    cases first : insertion? o source.toList path n with
    | some j =>
      obtain ⟨identity, name, own, -⟩ := ownAttributes_of_some first
      rw [own] at taggable
      exact not_taggable_extend _ identity name taggable
    | none =>
      rw [ownAttributes_of_none first] at taggable
      obtain ⟨before, c, after, hsource, hlen⟩ := law.begins tree htree n hn
      have located : ∃ identity, identityOf source.toList path n = .ok identity :=
        identityOf_of_begins hsource hlen ((Text.byteLength_toList source).trans_lt hsize)
      have missed := (isSome_insertion?_iff located).2 taggable
      rw [first] at missed
      cases missed
  have insertions := insertions_editsOf o code path tree'
  rw [List.filterMap_eq_nil_iff.2 nothing] at insertions
  exact congrArg EditList.mk insertions

theorem apply_empty (source : String) : EditList.empty.apply source = .ok source := by
  unfold EditList.apply EditList.badOffset? EditList.empty
  simp [EditList.sorted, EditList.splice]

/-- A file is given back as it was, or with the insertions for its tags. -/
theorem tagWith_cases (parse : String → Option Node) (o : Options) (source path : String) :
    (∃ status, tagWith parse o source path = .unchanged source status) ∨
      ∃ tree code map, parse source = some tree ∧
        (editsOf o source path tree).1.apply source = .ok code ∧
        tagWith parse o source path =
          ⟨code, .tagged, (editsOf o source path tree).1.size, (editsOf o source path tree).2, map⟩ := by
  unfold tagWith
  split
  · cases htree : parse source with
    | none => exact .inl ⟨.passedThrough, rfl⟩
    | some tree =>
      unfold tagTree
      dsimp only
      cases hcode : (editsOf o source path tree).1.apply source with
      | ok code => exact .inr ⟨tree, code, _, rfl, hcode, rfl⟩
      | error bad => exact .inl ⟨.passedThrough, rfl⟩
  · exact .inl ⟨.notApplicable, rfl⟩

/-- What was tagged is not changed when it is tagged again. -/
theorem tagWith_tagWith (law : TakesAttributes parse source) (hsize : source.utf8ByteSize < UInt32.size)
    (o : Options) (path : String) :
    let once := tagWith parse o source path
    let twice := tagWith parse o once.code path
    twice.code = once.code ∧ twice.inserted = 0 := by
  intro once twice
  rcases tagWith_cases parse o source path with ⟨status, h⟩ | ⟨tree, code, map, htree, hcode, h⟩
  · have code : once.code = source := congrArg Report.code h
    have same : twice = .unchanged source status := (congrArg (tagWith parse o · path) code).trans h
    rw [same, code]
    exact ⟨rfl, rfl⟩
  · have again : once.code = code := congrArg Report.code h
    rw [show twice = tagWith parse o code path from congrArg (tagWith parse o · path) again, again]
    rcases tagWith_cases parse o code path with ⟨status, h'⟩ | ⟨tree', code', map', htree', hcode', h'⟩
    · rw [h']
      exact ⟨rfl, rfl⟩
    · have nothing := insertions_retagged law hsize htree hcode htree'
      rw [nothing, apply_empty] at hcode'
      rw [h', nothing]
      exact ⟨(Except.ok.inj hcode').symm, rfl⟩

/-! ## A source with one tag -/

/-- A tag with type arguments and an attribute. -/
def listSource : String :=
  "<List<Item> dense/>"

/-- The tag with an identity. -/
def listTagged : String :=
  "<List<Item> data-sg-el=\"a.tsx:1:0\" data-sg-name=\"List\" dense/>"

/-- The parser, as far as these two sources go. -/
def parseList (source : String) : Option Node :=
  if source = listSource ∨ source = listTagged then Tsx.parse source else none

theorem apply_singleton {source : String} {before after : List Char} {i : Insertion}
    (h : source.toList = before ++ after) (hlen : byteLength before = i.offset) :
    EditList.apply ⟨[i]⟩ source = .ok (String.ofList (before ++ i.text.toList ++ after)) := by
  have split := Text.splitAtByte?_eq_some.2 ⟨h, hlen⟩
  have placed : EditList.isPlace source.toList i.offset = true := by
    rw [EditList.isPlace, split]
    rfl
  have good : EditList.badOffset? ⟨[i]⟩ source = none := by
    simp [EditList.badOffset?, placed]
  have sorted : EditList.sorted ⟨[i]⟩ = [i] := List.mergeSort_singleton i
  unfold EditList.apply
  rw [good, sorted]
  simp only [EditList.splice, Nat.sub_zero, split]

/-- The tag of the source: where it begins, where attributes are put into it, and what is read of it. -/
theorem tags_listSource : ∃ tree n, Tsx.parse listSource = some tree ∧ tags tree = [n] ∧
    n.span.start = 0 ∧
    (n.childWith .name).map (fun c => ((typeArguments? n).getD c).span.stop) = some 11 ∧
    reading listSource.toList n = ⟨some (.identifier, some "List".toList), [some "dense"]⟩ := by
  have parsed : (Tsx.parse listSource).map (fun t => (tags t).map fun n => (n.span.start,
      (n.childWith .name).map (fun c => ((typeArguments? n).getD c).span.stop),
      reading listSource.toList n)) =
        some [(0, some 11, ⟨some (.identifier, some "List".toList), [some "dense"]⟩)] := by
    decide +kernel
  obtain ⟨tree, htree, htags⟩ := Option.map_eq_some_iff.1 parsed
  obtain ⟨n, hn, read⟩ := List.map_eq_singleton_iff.1 htags
  simp only [Prod.mk.injEq] at read
  exact ⟨tree, n, htree, hn, read⟩

/-- The same tag with two attributes more. -/
theorem tags_listTagged {tree : Node} (h : Tsx.parse listTagged = some tree) :
    (tags tree).map (reading listTagged.toList) =
      [⟨some (.identifier, some "List".toList),
        [some identityAttribute, some nameAttribute, some "dense"]⟩] := by
  have parsed : (Tsx.parse listTagged).map (fun t => (tags t).map (reading listTagged.toList)) =
      some [⟨some (.identifier, some "List".toList),
        [some identityAttribute, some nameAttribute, some "dense"]⟩] := by
    decide +kernel
  rw [h] at parsed
  exact Option.some.inj parsed

/-- Attributes that are put into the tag stand between its type arguments and the attribute. -/
theorem apply_attributeEdits_list {n : Node} {attributes : Node → List Attribute} {tree : Node}
    (tag : tags tree = [n])
    (place : (n.childWith .name).map (fun c => ((typeArguments? n).getD c).span.stop) = some 11) :
    (attributeEdits attributes tree).apply listSource = .ok (String.ofList
      ("<List<Item>".toList ++ attributesText (attributes n) ++ " dense/>".toList)) := by
  have whole : listSource.toList = "<List<Item>".toList ++ " dense/>".toList := by decide +kernel
  obtain ⟨c, hc, stop⟩ := Option.map_eq_some_iff.1 place
  by_cases hnone : attributes n = []
  · have edits : attributeEdits attributes tree = .empty := by
      simp [attributeEdits, tag, attributeInsertion?, hnone, EditList.empty]
    rw [edits, apply_empty, hnone, ← String.ofList_toList (s := listSource), whole]
    rfl
  · have edits : attributeEdits attributes tree =
        ⟨[⟨11, String.ofList (attributesText (attributes n))⟩]⟩ := by
      simp [attributeEdits, tag, attributeInsertion?, hnone, hc, stop]
    have length : byteLength "<List<Item>".toList = 11 := by decide +kernel
    have inserted : (String.ofList (attributesText (attributes n))).toList = attributesText (attributes n) :=
      String.toList_ofList
    rw [edits, apply_singleton whole length, inserted]

theorem takesAttributes_parseList : TakesAttributes parseList listSource := by
  obtain ⟨tree, n, htree, tag, start, place, read⟩ := tags_listSource
  have parsed : ∀ t, parseList listSource = some t → t = tree := by
    intro t ht
    rw [parseList, if_pos (.inl rfl), htree] at ht
    exact (Option.some.inj ht).symm
  constructor
  · intro t ht n' hn'
    cases parsed t ht
    rw [tag] at hn'
    cases List.mem_singleton.1 hn'
    exact ⟨[], '<', "List<Item> dense/>".toList, by decide +kernel, by rw [start]; rfl⟩
  · intro t ht attributes plain _ code hcode tree' htree'
    cases parsed t ht
    rw [apply_attributeEdits_list tag place] at hcode
    have text := (congrArg String.toList (Except.ok.inj hcode)).symm.trans String.toList_ofList
    -- the attributes can be read off the text, so there are two choices of them that are parsed
    have only : ∀ as : List Attribute, (∀ a ∈ as, a.Plain) →
        code.toList = "<List<Item>".toList ++ attributesText as ++ " dense/>".toList →
          attributes n = as := by
      intro as has heq
      have same := List.append_cancel_right (text.symm.trans heq)
      exact attributesText_injective (plain n) has (List.append_cancel_left same)
    rw [tag, List.map_singleton, read]
    unfold parseList at htree'
    split at htree'
    · rename_i known
      rcases known with rfl | rfl
      · rw [only [] (List.forall_mem_nil _) (by decide +kernel)]
        cases htree.symm.trans htree'
        rw [tag, List.map_singleton, read]
        rfl
      · rw [only (identityAttributes "a.tsx:1:0" "List") (plain_identityAttributes _ _) (by decide +kernel),
          tags_listTagged htree']
        rfl
    · cases htree'

/-- Tagged once, the tag has an identity; tagged again, nothing changes. -/
theorem tagWith_tagWith_list :
    let once := tagWith parseList {} listSource "a.tsx"
    let twice := tagWith parseList {} once.code "a.tsx"
    once.inserted = 1 ∧ twice.code = once.code ∧ twice.inserted = 0 := by
  intro once twice
  have first : once.inserted = 1 := by decide +kernel
  exact ⟨first, tagWith_tagWith takesAttributes_parseList (by decide +kernel) {} "a.tsx"⟩

end InPlace.Tagging

import InPlace.Proofs.Tagging.EditedText
import Mathlib.Algebra.GroupWithZero.Nat

/-!
# One insertion after the other

An edit list is applied in one pass over the source, with a cursor from which each piece of the source is cut out. The
result is what one gets by inserting the texts one at a time, if those that stand further behind come first: then no
insertion moves the place of a later one.

Main statement: `apply_spliced`.
-/

namespace InPlace.Tagging

open Text (byteLength)

namespace EditList

/-- Puts one text into another, if it has a place there. -/
def insertOne? (source : String) (i : Insertion) : Option String :=
  (Text.splitAtByte? i.offset source.toList).map fun (before, after) => String.ofList (before ++ i.text.toList ++ after)

/-- Puts texts into another one at a time. -/
def insertEach? (source : String) (order : List Insertion) : Option String :=
  order.foldlM insertOne? source

/-- An order of the recorded insertions: from the largest offset to the smallest, and at equal offsets the one that was
recorded last comes first. -/
structure LastFirst (es : EditList) (order : List Insertion) : Prop where
  offsets : order.Pairwise fun a b => b.offset ≤ a.offset
  ties : ∀ place, order.filter (fun i => i.offset == place) = (es.insertions.filter fun i => i.offset == place).reverse

/-- One pass over a text with insertions in it: each piece is cut out of the text from the cursor on. None where there is
no such piece. -/
def passFrom? (source : List Char) (cursor : Nat) : List Insertion → Option (List Char)
  | [] => (Text.splitAtByte? cursor source).map Prod.snd
  | i :: is =>
    (Text.slice? source cursor i.offset).bind fun piece =>
      (passFrom? source i.offset is).map fun rest => piece ++ i.text.toList ++ rest

/-- What comes of an edit list if pieces that are not there cannot be cut out. -/
def pass? (es : EditList) (source : String) : Option (Except BadOffset String) :=
  match es.badOffset? source with
  | some b => some (.error b)
  | none => (passFrom? source.toList 0 es.sorted).map fun cs => .ok (String.ofList cs)

variable {place : Nat} {cs : List Char} {is js : List Insertion} {es : EditList} {source s : String}

/-! ## Orders of insertions -/

/-- Sorted insertions are determined by those that share an offset. -/
theorem eq_of_filter_eq (hi : is.Pairwise fun a b => a.offset ≤ b.offset) (hj : js.Pairwise fun a b => a.offset ≤ b.offset)
    (same : ∀ place, is.filter (fun i => i.offset == place) = js.filter fun i => i.offset == place) : is = js := by
  have mem {is js : List Insertion}
      (same : ∀ place, is.filter (fun i => i.offset == place) = js.filter fun i => i.offset == place) {i : Insertion}
      (h : i ∈ is) : i ∈ js := by
    have here : i ∈ is.filter fun j => j.offset == i.offset := List.mem_filter.2 ⟨h, beq_self_eq_true _⟩
    rw [same] at here
    exact (List.mem_filter.1 here).1
  have first {i : Insertion} {is : List Insertion} (h : (i :: is).Pairwise fun a b => a.offset ≤ b.offset) {j : Insertion}
      (hj : j ∈ i :: is) : i.offset ≤ j.offset :=
    (List.mem_cons.1 hj).elim (fun one => one ▸ Nat.le_refl _) ((List.pairwise_cons.1 h).1 j)
  induction is generalizing js with
  | nil =>
    cases js with
    | nil => rfl
    | cons j js => exact absurd (mem (fun place => (same place).symm) List.mem_cons_self) List.not_mem_nil
  | cons i is ih =>
    cases js with
    | nil => exact absurd (mem same List.mem_cons_self) List.not_mem_nil
    | cons j js =>
      have offset : i.offset = j.offset :=
        Nat.le_antisymm (first hi (mem (fun place => (same place).symm) List.mem_cons_self))
          (first hj (mem same List.mem_cons_self))
      have here : i :: is.filter (fun k => k.offset == j.offset) = j :: js.filter fun k => k.offset == j.offset := by
        have whole := same j.offset
        rwa [List.filter_cons, List.filter_cons, if_pos (beq_iff_eq.2 offset), if_pos (beq_self_eq_true _)] at whole
      obtain ⟨rfl, -⟩ := List.cons.inj here
      congr 1
      refine ih (List.pairwise_cons.1 hi).2 (List.pairwise_cons.1 hj).2 fun place => ?_
      have whole := same place
      rw [List.filter_cons, List.filter_cons] at whole
      split at whole
      · exact (List.cons.inj whole).2
      · exact whole

/-- There is one order from the last insertion to the first: that of the pass backwards. -/
theorem lastFirst_iff {order : List Insertion} : es.LastFirst order ↔ order = es.sorted.reverse := by
  constructor
  · intro h
    have backwards : order.reverse = es.sorted := by
      refine eq_of_filter_eq (List.pairwise_reverse.2 h.offsets) es.pairwise_sorted fun place => ?_
      rw [List.filter_reverse, h.ties, List.reverse_reverse, filter_sorted]
    rw [← backwards, List.reverse_reverse]
  · rintro rfl
    exact ⟨List.pairwise_reverse.2 es.pairwise_sorted, fun place => by rw [List.filter_reverse, filter_sorted]⟩

/-- The pass does not depend on the order in which insertions at different places were recorded. -/
theorem sorted_eq_of_filter_eq {es' : EditList} (same : ∀ place,
    es.insertions.filter (fun i => i.offset == place) = es'.insertions.filter fun i => i.offset == place) :
    es.sorted = es'.sorted :=
  eq_of_filter_eq es.pairwise_sorted es'.pairwise_sorted fun place => by rw [filter_sorted, filter_sorted, same]

/-! ## Along the cuts -/

theorem insertOne?_append (front back : List Char) (i : Insertion) (h : byteLength front = i.offset) :
    insertOne? (String.ofList (front ++ back)) i = some (String.ofList (front ++ i.text.toList ++ back)) := by
  unfold insertOne?
  rw [String.toList_ofList, Text.splitAtByte?_eq_some.2 ⟨rfl, h⟩]
  rfl

/-- Insertions that are put in backwards leave alone what is in front of them. -/
theorem Cuts.insertEach? (front : List Char) (h : Cuts place cs is) (hf : byteLength front = place) :
    insertEach? (String.ofList (front ++ cs)) is.reverse = some (String.ofList (front ++ splice place cs is)) := by
  induction h generalizing front with
  | rest place cs => rfl
  | @piece place before after i is hlen _ ih =>
    have length : byteLength (front ++ before) = i.offset := by
      rw [Text.byteLength_append, hf, hlen]
    have behind := ih _ length
    unfold EditList.insertEach? at behind ⊢
    rw [List.reverse_cons, List.foldlM_append, ← List.append_assoc, behind]
    show (some _).bind _ = _
    rw [Option.bind_some, List.foldlM_cons, insertOne?_append _ _ i length, splice_piece hlen]
    simp only [List.append_assoc]
    rfl

/-- Each piece is there to be cut out. -/
theorem Cuts.passFrom? (front : List Char) (h : Cuts place cs is) (hf : byteLength front = place) :
    passFrom? (front ++ cs) place is = some (splice place cs is) := by
  induction h generalizing front with
  | rest place cs =>
    unfold EditList.passFrom?
    rw [Text.splitAtByte?_eq_some.2 ⟨rfl, hf⟩]
    rfl
  | @piece place before after i is hlen _ ih =>
    have length : byteLength (front ++ before) = i.offset := by
      rw [Text.byteLength_append, hf, hlen]
    have piece : Text.slice? (front ++ (before ++ after)) place i.offset = some before :=
      Text.slice?_eq_some.2 ⟨front, after, (List.append_assoc _ _ _).symm, hf, length⟩
    have rest := ih _ length
    rw [List.append_assoc] at rest
    unfold EditList.passFrom?
    rw [piece, Option.bind_some, rest, Option.map_some, splice_piece hlen]

/-- The text that is made is longer by what is inserted. -/
theorem Cuts.byteLength_splice (h : Cuts place cs is) :
    byteLength (splice place cs is) = byteLength cs + (is.map fun i => i.text.utf8ByteSize).sum := by
  induction h with
  | rest place cs => rfl
  | @piece place before after i is hlen _ ih =>
    rw [splice_piece hlen, Text.byteLength_append, Text.byteLength_append, Text.byteLength_append, ih, List.map_cons,
      List.sum_cons, Text.byteLength_toList]
    omega

/-! ## Edit lists -/

theorem apply_eq_splice (valid : es.badOffset? source = none) :
    es.apply source = .ok (String.ofList (splice 0 source.toList es.sorted)) := by
  unfold apply
  rw [valid]

theorem apply_eq_error {b : BadOffset} (h : es.badOffset? source = some b) : es.apply source = .error b := by
  unfold apply
  rw [h]

/-- An edit list can be applied exactly if all its insertions have their places. -/
theorem apply_eq_ok_iff : es.apply source = .ok s ↔
    es.badOffset? source = none ∧ s = String.ofList (splice 0 source.toList es.sorted) := by
  cases h : es.badOffset? source with
  | none =>
    rw [apply_eq_splice h]
    exact ⟨fun same => ⟨rfl, (Except.ok.inj same).symm⟩, fun ⟨_, same⟩ => same ▸ rfl⟩
  | some b =>
    rw [apply_eq_error h]
    exact ⟨nofun, nofun⟩

/-- A place in a text is a boundary between its characters. -/
theorem isPlace_toList_iff {offset : Nat} : isPlace source.toList offset = true ↔
    offset ≤ source.utf8ByteSize ∧ String.Pos.Raw.IsValid source ⟨offset⟩ := by
  rw [isPlace_iff]
  constructor
  · rintro ⟨before, after, whole, rfl⟩
    have length := Text.byteLength_toList source
    rw [whole, Text.byteLength_append] at length
    refine ⟨by omega, String.Pos.Raw.isValid_iff_exists_append.2 ⟨String.ofList before, String.ofList after, ?_, ?_⟩⟩
    · rw [← String.ofList_append, ← whole, String.ofList_toList]
    · have size := Text.byteLength_toList (String.ofList before)
      rw [String.toList_ofList] at size
      exact String.Pos.Raw.ext size
  · rintro ⟨-, valid⟩
    obtain ⟨before, after, rfl, place⟩ := String.Pos.Raw.isValid_iff_exists_append.1 valid
    exact ⟨before.toList, after.toList, String.toList_append,
      (Text.byteLength_toList before).trans (congrArg String.Pos.Raw.byteIdx place).symm⟩

/-- Applying an edit list is inserting its texts one after the other, from the last place to the first. It succeeds exactly
if each of them has a place in the source, and takes no piece that is not there. -/
theorem apply_spliced (es : EditList) (source : String) :
    es.pass? source = some (es.apply source) ∧
      ((∃ s, es.apply source = .ok s) ↔
        ∀ i ∈ es.insertions, i.offset ≤ source.utf8ByteSize ∧ String.Pos.Raw.IsValid source ⟨i.offset⟩) ∧
      (∃ order, es.LastFirst order) ∧
      (∀ s, es.apply source = .ok s → (∀ order, es.LastFirst order → insertEach? source order = some s) ∧
        s.utf8ByteSize = source.utf8ByteSize + (es.insertions.map fun i => i.text.utf8ByteSize).sum) ∧
      ∀ es' : EditList, (∀ place,
        es.insertions.filter (fun i => i.offset == place) = es'.insertions.filter fun i => i.offset == place) →
          (es.apply source).toOption = (es'.apply source).toOption := by
  refine ⟨?_, ?_, ⟨_, lastFirst_iff.2 rfl⟩, fun s hs => ⟨fun order last => ?_, ?_⟩, fun es' same => ?_⟩
  · unfold pass?
    cases h : es.badOffset? source with
    | some b => rw [apply_eq_error h]
    | none =>
      have pass := (cuts_sorted h).passFrom? [] rfl
      rw [List.nil_append] at pass
      rw [apply_eq_splice h, pass]
      rfl
  · simp only [apply_eq_ok_iff, exists_and_left, exists_eq, and_true, badOffset?_eq_none_iff, ← isPlace_iff,
      isPlace_toList_iff]
  · obtain ⟨valid, rfl⟩ := apply_eq_ok_iff.1 hs
    rw [lastFirst_iff.1 last]
    have backwards := (cuts_sorted valid).insertEach? [] rfl
    rwa [List.nil_append, List.nil_append, String.ofList_toList] at backwards
  · obtain ⟨valid, rfl⟩ := apply_eq_ok_iff.1 hs
    have length := (cuts_sorted valid).byteLength_splice
    have perm : es.sorted.Perm es.insertions := List.mergeSort_perm _ _
    rw [(perm.map _).sum_nat, Text.byteLength_toList] at length
    rw [← length, ← Text.byteLength_toList, String.toList_ofList]
  · have sorted := sorted_eq_of_filter_eq same
    -- whether there is a bad place depends on the places alone, which the two lists share
    have alike : es.badOffset? source = none ↔ es'.badOffset? source = none := by
      simp only [badOffset?_eq_none_iff, ← mem_sorted, sorted]
    cases h : es.badOffset? source with
    | none => rw [apply_eq_splice h, apply_eq_splice (alike.1 h), sorted]
    | some b =>
      obtain ⟨b', h'⟩ := Option.ne_none_iff_exists'.1 fun none => Option.some_ne_none b (h.symm.trans (alike.2 none))
      rw [apply_eq_error h, apply_eq_error h']
      rfl

theorem apply_spliced_ties :
    (⟨[⟨3, "b"⟩, ⟨0, "a"⟩, ⟨3, "c"⟩]⟩ : EditList).apply "日x" = .ok "a日bcx" ∧
      insertEach? "日x" [⟨3, "c"⟩, ⟨3, "b"⟩, ⟨0, "a"⟩] = some "a日bcx" ∧ "a日bcx".utf8ByteSize = 4 + 3 := by
  have valid : (⟨[⟨3, "b"⟩, ⟨0, "a"⟩, ⟨3, "c"⟩]⟩ : EditList).badOffset? "日x" = none := by decide +kernel
  have applied : (⟨[⟨3, "b"⟩, ⟨0, "a"⟩, ⟨3, "c"⟩]⟩ : EditList).apply "日x" = .ok "a日bcx" := by
    rw [apply_eq_ok valid]
    exact congrArg Except.ok (by decide +kernel)
  obtain ⟨-, -, -, spliced, -⟩ := apply_spliced ⟨[⟨3, "b"⟩, ⟨0, "a"⟩, ⟨3, "c"⟩]⟩ "日x"
  obtain ⟨each, length⟩ := spliced _ applied
  refine ⟨applied, each _ ⟨by decide, fun place => ?_⟩, length⟩
  by_cases first : place = 0
  · subst first
    rfl
  · by_cases second : place = 3
    · subst second
      rfl
    · simp [Ne.symm first, Ne.symm second]

end EditList

end InPlace.Tagging

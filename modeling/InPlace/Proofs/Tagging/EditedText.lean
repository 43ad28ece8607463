import InPlace.Proofs.Text.Units
import InPlace.Tagging.EditList

/-!
# Edited texts

The text that the insertions of an edit list make of a source, told place by place: at each place stand the
texts that were recorded for it, in the order of recording, and between the places the characters of the source
(`EditList.letters`). Every character of it is marked with where it comes from.

Sorted insertions that have their places in the source cut it into pieces (`Cuts`), and are met one by one on the
way over its characters (`Walk`); what an edit list does is shown by induction on either.

Main statements: `apply_eq_ok` (this is the text that `apply` makes), `kept_letters` (without what was inserted
it is the source) and `Cuts.pieces`.
-/

namespace InPlace.Tagging

open Text (byteLength)

/-- A character of an edited text. -/
inductive Letter where
  /-- It comes from the source. -/
  | kept (c : Char)
  | inserted (c : Char)
  deriving DecidableEq

namespace Letter

/-- The character, wherever it comes from. -/
def char : Letter → Char
  | kept c | inserted c => c

/-- The character, if it comes from the source. -/
def kept? : Letter → Option Char
  | kept c => some c
  | inserted _ => none

theorem map_char_kept (cs : List Char) : (cs.map kept).map char = cs := by
  rw [List.map_map]
  exact List.map_id cs

theorem map_char_inserted (cs : List Char) : (cs.map inserted).map char = cs := by
  rw [List.map_map]
  exact List.map_id cs

theorem filterMap_inserted (cs : List Char) : (cs.map inserted).filterMap kept? = [] := by
  rw [List.filterMap_map, List.filterMap_eq_nil_iff]
  exact fun _ _ => rfl

end Letter

namespace EditList

/-- What was recorded for a place, in the order of recording. -/
def insertedAt (is : List Insertion) (place : Nat) : List Letter :=
  (is.filter fun i => i.offset == place).flatMap fun i => i.text.toList.map .inserted

/-- The edited text of what is left of a source from `place` on. -/
def lettersFrom (is : List Insertion) (place : Nat) : List Char → List Letter
  | [] => insertedAt is place
  | c :: cs => insertedAt is place ++ .kept c :: lettersFrom is (place + c.utf8Size) cs

/-- The edited text of a source. -/
def letters (es : EditList) (source : String) : List Letter :=
  lettersFrom es.insertions 0 source.toList

/-- Sorted insertions cut what is left of a text from `place` on into pieces. -/
inductive Cuts : Nat → List Char → List Insertion → Prop
  | rest (place : Nat) (cs : List Char) : Cuts place cs []
  | piece {place : Nat} {before after : List Char} {i : Insertion} {is : List Insertion} :
      place + byteLength before = i.offset → Cuts i.offset after is →
      Cuts place (before ++ after) (i :: is)

/-- Sorted insertions are met on the way over what is left of a text from `place` on. -/
inductive Walk : Nat → List Char → List Insertion → Prop
  | done (place : Nat) : Walk place [] []
  | keep {place : Nat} {c : Char} {cs : List Char} {is : List Insertion} :
      Walk (place + c.utf8Size) cs is → Walk place (c :: cs) is
  | insert {i : Insertion} {cs : List Char} {is : List Insertion} :
      Walk i.offset cs is → Walk i.offset cs (i :: is)

section

variable {place : Nat} {cs before after : List Char} {i : Insertion} {is js : List Insertion}
  {es : EditList} {source : String}

/-! ## Letters -/

theorem kept_insertedAt (is : List Insertion) (place : Nat) :
    (insertedAt is place).filterMap Letter.kept? = [] := by
  unfold insertedAt
  rw [List.filterMap_flatMap, List.flatMap_eq_nil_iff]
  intro i _
  exact Letter.filterMap_inserted i.text.toList

/-- Without what was inserted an edited text is its source. -/
theorem kept_lettersFrom (is : List Insertion) (place : Nat) (cs : List Char) :
    (lettersFrom is place cs).filterMap Letter.kept? = cs := by
  induction cs generalizing place with
  | nil => exact kept_insertedAt is place
  | cons c cs ih =>
    rw [lettersFrom, List.filterMap_append, kept_insertedAt, List.nil_append, List.filterMap_cons]
    exact congrArg (c :: ·) (ih _)

theorem kept_letters (es : EditList) (source : String) :
    (es.letters source).filterMap Letter.kept? = source.toList :=
  kept_lettersFrom es.insertions 0 source.toList

/-- Only what is recorded from `place` on matters. -/
theorem lettersFrom_congr (h : ∀ p, place ≤ p → insertedAt is p = insertedAt js p) (cs : List Char) :
    lettersFrom is place cs = lettersFrom js place cs := by
  induction cs generalizing place with
  | nil => exact h place (Nat.le_refl place)
  | cons c cs ih =>
    rw [lettersFrom, lettersFrom, h place (Nat.le_refl place),
      ih fun p hp => h p (Nat.le_trans (Nat.le_add_right place _) hp)]

theorem lettersFrom_nil (place : Nat) (cs : List Char) : lettersFrom [] place cs = cs.map .kept := by
  induction cs generalizing place with
  | nil => rfl
  | cons c cs ih => exact congrArg (Letter.kept c :: ·) (ih _)

theorem insertedAt_eq_nil (h : ∀ i ∈ is, place < i.offset) : insertedAt is place = [] := by
  unfold insertedAt
  rw [List.filter_eq_nil_iff.2]
  · rfl
  · intro i hi
    have later := h i hi
    simp only [beq_iff_eq]
    omega

/-- A piece of the source in front of all insertions is kept. -/
theorem lettersFrom_append (h : ∀ i ∈ is, place + byteLength before ≤ i.offset) :
    lettersFrom is place (before ++ after) =
      before.map .kept ++ lettersFrom is (place + byteLength before) after := by
  induction before generalizing place with
  | nil => rfl
  | cons c before ih =>
    have positive := c.utf8Size_pos
    have none : insertedAt is place = [] := insertedAt_eq_nil fun i hi => by
      have later := h i hi
      simp only [byteLength] at later
      omega
    rw [List.cons_append, lettersFrom, none, List.nil_append, ih, List.map_cons, List.cons_append,
      byteLength, Nat.add_assoc]
    intro i hi
    have later := h i hi
    simp only [byteLength] at later
    omega

/-- What is recorded first for a place stands there first. -/
theorem lettersFrom_cons (i : Insertion) (is : List Insertion) (cs : List Char) :
    lettersFrom (i :: is) i.offset cs = i.text.toList.map .inserted ++ lettersFrom is i.offset cs := by
  have here : insertedAt (i :: is) i.offset =
      i.text.toList.map .inserted ++ insertedAt is i.offset := by
    simp [insertedAt]
  have later : ∀ p, i.offset < p → insertedAt (i :: is) p = insertedAt is p := by
    intro p hp
    have other : (i.offset == p) = false := beq_eq_false_iff_ne.2 (Nat.ne_of_lt hp)
    simp [insertedAt, other]
  cases cs with
  | nil => exact here
  | cons c cs =>
    have rest : lettersFrom (i :: is) (i.offset + c.utf8Size) cs =
        lettersFrom is (i.offset + c.utf8Size) cs :=
      lettersFrom_congr
        (fun p hp => later p (Nat.lt_of_lt_of_le (Nat.lt_add_of_pos_right c.utf8Size_pos) hp)) cs
    rw [lettersFrom, lettersFrom, here, rest, List.append_assoc]

/-! ## Character by character -/

theorem Walk.append (h : Walk (place + byteLength before) cs is) :
    Walk place (before ++ cs) is := by
  induction before generalizing place with
  | nil => exact h
  | cons c before ih =>
    rw [byteLength, ← Nat.add_assoc] at h
    exact .keep (ih h)

theorem Cuts.walk (h : Cuts place cs is) : Walk place cs is := by
  induction h with
  | rest place cs =>
    rw [← List.append_nil cs]
    exact .append (.done _)
  | piece hlen _ ih => exact .append (hlen ▸ .insert ih)

/-- The first insertion that is met has its place in the text. -/
theorem Walk.cut (h : Walk place cs (i :: is)) :
    ∃ before after, cs = before ++ after ∧ place + byteLength before = i.offset := by
  generalize hjs : i :: is = js at h
  induction h with
  | done place => cases hjs
  | @keep place c cs is _ ih =>
    obtain ⟨before, after, rfl, hlen⟩ := ih hjs
    exact ⟨c :: before, after, rfl, by rw [byteLength, ← Nat.add_assoc, hlen]⟩
  | insert _ _ =>
    cases hjs
    exact ⟨[], _, rfl, rfl⟩

/-- Sorted insertions are not in front of the text over which they are met. -/
theorem Walk.le (h : Walk place cs is) : ∀ i ∈ is, place ≤ i.offset := by
  induction h with
  | done place => exact List.forall_mem_nil _
  | keep _ ih => exact fun i hi => Nat.le_trans (Nat.le_add_right _ _) (ih i hi)
  | insert _ ih => exact List.forall_mem_cons.2 ⟨Nat.le_refl _, ih⟩

theorem lettersFrom_keep {c : Char} (h : Walk (place + c.utf8Size) cs is) :
    lettersFrom is place (c :: cs) = .kept c :: lettersFrom is (place + c.utf8Size) cs := by
  have none := insertedAt_eq_nil fun i hi =>
    Nat.lt_of_lt_of_le (Nat.lt_add_of_pos_right c.utf8Size_pos) (h.le i hi)
  rw [lettersFrom, none, List.nil_append]

/-! ## Pieces -/

/-- The first insertion stands between the piece in front of it and what the other ones make of the rest. -/
theorem lettersFrom_piece (hlen : place + byteLength before = i.offset) (h : Cuts i.offset after is) :
    lettersFrom (i :: is) place (before ++ after) =
      before.map .kept ++ (i.text.toList.map .inserted ++ lettersFrom is i.offset after) := by
  have behind : ∀ j ∈ i :: is, place + byteLength before ≤ j.offset := by
    rw [hlen]
    exact List.forall_mem_cons.2 ⟨Nat.le_refl _, h.walk.le⟩
  rw [lettersFrom_append behind, hlen, lettersFrom_cons]

theorem splice_piece (hlen : place + byteLength before = i.offset) (after : List Char)
    (is : List Insertion) : splice place (before ++ after) (i :: is) =
      before ++ i.text.toList ++ splice i.offset after is := by
  have split : Text.splitAtByte? (i.offset - place) (before ++ after) = some (before, after) :=
    Text.splitAtByte?_eq_some.2 ⟨rfl, by omega⟩
  rw [splice, split]

/-- Splicing gives the edited text. -/
theorem Cuts.splice_eq (h : Cuts place cs is) :
    splice place cs is = (lettersFrom is place cs).map Letter.char := by
  induction h with
  | rest place cs => rw [lettersFrom_nil, Letter.map_char_kept, splice]
  | piece hlen hcuts ih =>
    rw [splice_piece hlen, lettersFrom_piece hlen hcuts, List.map_append, List.map_append,
      Letter.map_char_kept, Letter.map_char_inserted, ih, List.append_assoc]

/-- The text and the edited text are made of the same pieces, in the edited text each with an insertion behind
it. -/
theorem Cuts.pieces (h : Cuts place cs is) : ∃ pieces : List (List Char × Insertion), ∃ rest,
    pieces.map Prod.snd = is ∧ cs = pieces.flatMap Prod.fst ++ rest ∧
      splice place cs is = pieces.flatMap (fun p => p.1 ++ p.2.text.toList) ++ rest := by
  induction h with
  | rest place cs => exact ⟨[], cs, rfl, rfl, rfl⟩
  | @piece place before after i is hlen _ ih =>
    obtain ⟨pieces, rest, insertions, source, edited⟩ := ih
    refine ⟨(before, i) :: pieces, rest, congrArg (i :: ·) insertions, ?_, ?_⟩
    · rw [List.flatMap_cons, List.append_assoc, ← source]
    · rw [splice_piece hlen, edited, List.flatMap_cons, List.append_assoc (before ++ _)]

/-! ## Valid edit lists -/

/-- A place in a text is where a part of it ends. -/
theorem isPlace_iff {offset : Nat} : isPlace cs offset = true ↔
    ∃ before after, cs = before ++ after ∧ byteLength before = offset := by
  unfold isPlace
  rw [Option.isSome_iff_exists]
  constructor
  · rintro ⟨⟨before, after⟩, h⟩
    exact ⟨before, after, Text.splitAtByte?_eq_some.1 h⟩
  · rintro ⟨before, after, h⟩
    exact ⟨(before, after), Text.splitAtByte?_eq_some.2 h⟩

/-- An edit list is valid if all its insertions have their places in the text. -/
theorem badOffset?_eq_none_iff : es.badOffset? source = none ↔
    ∀ i ∈ es.insertions, ∃ before after, source.toList = before ++ after ∧ byteLength before = i.offset := by
  unfold badOffset?
  simp only [Option.map_eq_none_iff, List.find?_eq_none, Bool.not_eq_true', Bool.not_eq_false,
    isPlace_iff]

theorem mem_sorted : i ∈ es.sorted ↔ i ∈ es.insertions :=
  List.mem_mergeSort

/-- The order by offsets, by which edits are sorted, is transitive. -/
theorem offset_trans (a b c : Insertion) (hab : decide (a.offset ≤ b.offset) = true)
    (hbc : decide (b.offset ≤ c.offset) = true) : decide (a.offset ≤ c.offset) = true :=
  decide_eq_true (Nat.le_trans (of_decide_eq_true hab) (of_decide_eq_true hbc))

/-- Any two insertions are in order by their offsets, one way or the other. -/
theorem offset_total (a b : Insertion) :
    (decide (a.offset ≤ b.offset) || decide (b.offset ≤ a.offset)) = true := by
  rw [Bool.or_eq_true, decide_eq_true_iff, decide_eq_true_iff]
  exact Nat.le_total _ _

theorem pairwise_sorted (es : EditList) : es.sorted.Pairwise fun a b => a.offset ≤ b.offset :=
  (List.pairwise_mergeSort offset_trans offset_total es.insertions).imp fun h => of_decide_eq_true h

/-- Sorting keeps the order of what was recorded for the same place. -/
theorem filter_sorted (es : EditList) (place : Nat) :
    es.sorted.filter (fun i => i.offset == place) = es.insertions.filter fun i => i.offset == place := by
  have same : (es.insertions.filter fun i => i.offset == place).Pairwise
      fun a b => decide (a.offset ≤ b.offset) = true := by
    refine List.pairwise_of_forall_mem_list fun a ha b hb => ?_
    have hpa := (List.mem_filter.1 ha).2
    have hpb := (List.mem_filter.1 hb).2
    simp only [beq_iff_eq] at hpa hpb
    simp [hpa, hpb]
  have sub := (List.sublist_mergeSort offset_trans offset_total same List.filter_sublist).filter
    fun i => i.offset == place
  simp only [List.filter_filter, Bool.and_self] at sub
  have perm : es.sorted.Perm es.insertions := List.mergeSort_perm _ _
  exact (sub.eq_of_length (perm.filter _).length_eq.symm).symm

theorem lettersFrom_sorted (es : EditList) (place : Nat) (cs : List Char) :
    lettersFrom es.sorted place cs = lettersFrom es.insertions place cs :=
  lettersFrom_congr (fun p _ => by rw [insertedAt, insertedAt, filter_sorted]) cs

/-- Sorted insertions that have their places in a text cut it. -/
theorem cuts_of_pairwise (sorted : is.Pairwise fun a b => a.offset ≤ b.offset)
    (placed : ∀ i ∈ is, ∃ before after, cs = before ++ after ∧ place + byteLength before = i.offset) :
    Cuts place cs is := by
  induction is generalizing place cs with
  | nil => exact .rest place cs
  | cons i is ih =>
    obtain ⟨later, sorted⟩ := List.pairwise_cons.1 sorted
    obtain ⟨before, after, rfl, hlen⟩ := placed i List.mem_cons_self
    refine .piece hlen (ih sorted fun j hj => ?_)
    -- the place of a later insertion is not in the first piece
    obtain ⟨before', after', heq, hlen'⟩ := placed j (List.mem_cons_of_mem i hj)
    have order := later j hj
    obtain ⟨c, rfl, rfl⟩ := Text.prefix_of_byteLength_le heq (by omega)
    rw [Text.byteLength_append] at hlen'
    exact ⟨c, after', rfl, by omega⟩

/-- The insertions of a valid edit list cut the text. -/
theorem cuts_sorted (valid : es.badOffset? source = none) : Cuts 0 source.toList es.sorted := by
  refine cuts_of_pairwise es.pairwise_sorted fun i hi => ?_
  obtain ⟨before, after, heq, hlen⟩ := badOffset?_eq_none_iff.1 valid i (mem_sorted.1 hi)
  exact ⟨before, after, heq, (Nat.zero_add _).trans hlen⟩

/-- A valid edit list makes the edited text of a source. -/
theorem apply_eq_ok (valid : es.badOffset? source = none) :
    es.apply source = .ok (String.ofList ((es.letters source).map Letter.char)) := by
  unfold apply letters
  rw [valid, ← lettersFrom_sorted, ← (cuts_sorted valid).splice_eq]

end

end EditList

end InPlace.Tagging

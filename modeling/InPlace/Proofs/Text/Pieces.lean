import InPlace.Text.Blank
import InPlace.Text.Split
import Mathlib.Data.List.DropRight

/-!
# Pieces of texts

Trimming takes blanks off the two ends of a text and nothing else, and a second time it takes nothing. What it leaves
alone are the texts that neither begin nor end with a blank (`Trimmed`). A text that is put together from pieces with
separators after them is split into these pieces again.

Main statements: `trim_trim`, `trim_eq_self_iff`, `trim_append`, `splitAt_sep`, `mem_splitAt` and
`mem_splitWith_of_le`.
-/

namespace InPlace.Text

variable {p : Char → Bool}

/-! ## Trimming -/

theorem trimWith_eq (p : Char → Bool) (cs : List Char) :
    trimWith p cs = (cs.dropWhile p).rdropWhile p :=
  rfl

/-- Nothing comes into a text when it is trimmed. -/
theorem mem_of_mem_trimWith {cs : List Char} {c : Char} (h : c ∈ trimWith p cs) : c ∈ cs :=
  List.dropWhile_subset p ((List.rdropWhile_prefix p (cs.dropWhile p)).subset h)

/-- What is trimmed is not trimmed further. -/
theorem trimWith_trimWith (p : Char → Bool) (cs : List Char) :
    trimWith p (trimWith p cs) = trimWith p cs := by
  have front : (trimWith p cs).dropWhile p = trimWith p cs := by
    rw [trimWith_eq]
    have dropped := List.dropWhile_eq_self_iff.1 (List.dropWhile_idempotent p cs)
    have kept := List.rdropWhile_prefix p (cs.dropWhile p)
    refine List.dropWhile_eq_self_iff.2 fun hl => ?_
    rw [kept.getElem hl]
    exact dropped _
  rw [trimWith_eq, front]
  exact List.rdropWhile_idempotent p (cs.dropWhile p)

/-- What is in front of a text and to be taken off does not count. -/
theorem trimWith_append {front : List Char} (h : ∀ c ∈ front, p c = true) (cs : List Char) :
    trimWith p (front ++ cs) = trimWith p cs := by
  rw [trimWith_eq, trimWith_eq, List.dropWhile_append_of_pos h]

theorem mem_of_mem_trim {s : String} {c : Char} (h : c ∈ (trim s).toList) : c ∈ s.toList := by
  unfold trim at h
  rw [String.toList_ofList] at h
  exact mem_of_mem_trimWith h

theorem trim_trim (s : String) : trim (trim s) = trim s := by
  unfold trim
  rw [String.toList_ofList, trimWith_trimWith]

theorem dropWhile_eq_self_iff_head? {cs : List Char} : cs.dropWhile p = cs ↔ ∀ c ∈ cs.head?, p c = false := by
  cases cs with
  | nil => simp
  | cons c cs => simp [List.dropWhile_eq_self_iff]

/-- A text is left alone if nothing comes off at its ends. -/
theorem trimWith_eq_self_iff {cs : List Char} :
    trimWith p cs = cs ↔ (∀ c ∈ cs.head?, p c = false) ∧ ∀ c ∈ cs.getLast?, p c = false := by
  have ends : cs.rdropWhile p = cs ↔ ∀ c ∈ cs.getLast?, p c = false := by
    rw [List.getLast?_eq_head?_reverse, ← dropWhile_eq_self_iff_head?, List.rdropWhile, List.reverse_eq_iff]
  rw [← dropWhile_eq_self_iff_head?, ← ends, trimWith_eq]
  constructor
  · intro h
    -- what comes off at the front does not come back at the end
    have short : cs.length ≤ (cs.dropWhile p).length := by
      conv_lhs => rw [← h]
      exact (List.rdropWhile_prefix p _).length_le
    have front : cs.dropWhile p = cs := (List.dropWhile_suffix p).eq_of_length_le short
    rw [front] at h
    exact ⟨front, h⟩
  · rintro ⟨front, back⟩
    rw [front, back]

/-- A text that neither begins nor ends with a blank. -/
structure Trimmed (s : String) : Prop where
  front : ∀ c ∈ s.toList.head?, isBlank c = false
  back : ∀ c ∈ s.toList.getLast?, isBlank c = false

/-- Trimming leaves alone what is trimmed, and nothing else. -/
theorem trim_eq_self_iff {s : String} : trim s = s ↔ Trimmed s := by
  rw [trim, ← String.toList_inj, String.toList_ofList, trimWith_eq_self_iff]
  exact ⟨fun ⟨front, back⟩ => ⟨front, back⟩, fun h => ⟨h.front, h.back⟩⟩

theorem trimmed_trim (s : String) : Trimmed (trim s) :=
  trim_eq_self_iff.1 (trim_trim s)

theorem Trimmed.trim_eq {s : String} (h : Trimmed s) : trim s = s :=
  trim_eq_self_iff.2 h

theorem trim_append {front : List Char} (h : ∀ c ∈ front, isBlank c = true) (s : String) :
    trim (String.ofList (front ++ s.toList)) = trim s := by
  unfold trim
  rw [String.toList_ofList, trimWith_append h]

/-! ## Splitting -/

/-- A text without separators is the one part of itself. -/
theorem splitAt_of_not_mem {sep : Char} {cs : List Char} (h : sep ∉ cs) : splitAt sep cs = [cs] := by
  induction cs with
  | nil => rfl
  | cons c cs ih =>
    rw [List.mem_cons, not_or] at h
    have other : (c == sep) = false := by simpa using Ne.symm h.1
    have rest : splitWith (· == sep) cs = [cs] := ih h.2
    simp only [splitAt, splitWith, other, rest, Bool.false_eq_true, if_false]

/-- Two texts with a separator between them are split one after the other. -/
theorem splitAt_sep (sep : Char) (cs ds : List Char) :
    splitAt sep (cs ++ sep :: ds) = splitAt sep cs ++ splitAt sep ds := by
  induction cs with
  | nil => simp [splitAt, splitWith]
  | cons c cs ih =>
    have rest : splitWith (· == sep) (cs ++ sep :: ds) = splitWith (· == sep) cs ++ splitWith (· == sep) ds := ih
    show splitWith (· == sep) (c :: (cs ++ sep :: ds)) = splitWith (· == sep) (c :: cs) ++ _
    simp only [splitWith, rest]
    split
    · rfl
    · cases hs : splitWith (· == sep) cs with
      | nil =>
        have length := length_splitWith (· == sep) cs
        rw [hs] at length
        cases length
      | cons part parts => rfl

/-- A part without separators comes off with the separator after it. -/
theorem splitAt_append {sep : Char} {part : List Char} (h : sep ∉ part) (cs : List Char) :
    splitAt sep (part ++ sep :: cs) = part :: splitAt sep cs := by
  rw [splitAt_sep, splitAt_of_not_mem h]
  rfl

/-- No part of a text holds the separator. -/
theorem not_mem_of_mem_splitAt {sep : Char} {cs part : List Char} (h : part ∈ splitAt sep cs) :
    sep ∉ part := by
  intro hmem
  have none := not_mem_of_mem_splitWith h sep hmem
  rw [beq_self_eq_true] at none
  exact absurd none (by decide)

/-- What is no separator is in a part. -/
theorem mem_splitAt {sep c : Char} (hc : c ≠ sep) {cs : List Char} : c ∈ cs ↔ ∃ part ∈ splitAt sep cs, c ∈ part := by
  induction cs with
  | nil => simp [splitAt, splitWith]
  | cons d cs ih =>
    by_cases hd : d = sep
    · subst hd
      rw [show splitAt d (d :: cs) = [] :: splitAt d cs from splitAt_sep d [] cs]
      simp [hc, ih]
    · have other : (d == sep) = false := by simpa using hd
      unfold splitAt at ih ⊢
      rw [splitWith, other]
      cases hs : splitWith (· == sep) cs with
      | nil =>
        have length := length_splitWith (· == sep) cs
        rw [hs] at length
        cases length
      | cons part parts =>
        rw [hs] at ih
        simp [ih, or_assoc]

/-! ## More separators -/

variable {q : Char → Bool} {cs part : List Char}

theorem splitWith_of_sep {c : Char} (h : p c = true) (cs : List Char) :
    splitWith p (c :: cs) = [] :: splitWith p cs := by
  rw [splitWith, if_pos h]

theorem splitWith_of_other {c : Char} {ps : List (List Char)} (h : p c = false) (hs : splitWith p cs = part :: ps) :
    splitWith p (c :: cs) = (c :: part) :: ps := by
  rw [splitWith, h, hs]
  rfl

theorem exists_splitWith_eq_cons (p : Char → Bool) (cs : List Char) : ∃ part ps, splitWith p cs = part :: ps := by
  cases hs : splitWith p cs with
  | nil =>
    have length := length_splitWith p cs
    rw [hs] at length
    cases length
  | cons part ps => exact ⟨part, ps, rfl⟩

/-- With more separators a part that holds none of them is a part still. -/
theorem mem_splitWith_of_le (le : ∀ c, p c = true → q c = true) (h : part ∈ splitWith p cs)
    (solid : ∀ c ∈ part, q c = false) : part ∈ splitWith q cs := by
  -- the first part goes on in front, so it is told apart from the others
  have refined (cs : List Char) : ∃ first others first' others', splitWith p cs = first :: others ∧
      splitWith q cs = first' :: others' ∧ ((∀ c ∈ first, q c = false) → first' = first) ∧
      ∀ part ∈ others, (∀ c ∈ part, q c = false) → part ∈ others' := by
    induction cs with
    | nil => exact ⟨[], [], [], [], rfl, rfl, fun _ => rfl, nofun⟩
    | cons c cs ih =>
      obtain ⟨first, others, first', others', hp, hq, same, inside⟩ := ih
      by_cases sep : p c
      · refine ⟨_, _, _, _, splitWith_of_sep sep cs, splitWith_of_sep (le c sep) cs, fun _ => rfl, ?_⟩
        rw [hp, hq]
        intro part hm solid
        rcases List.mem_cons.1 hm with rfl | later
        · exact same solid ▸ List.mem_cons_self
        · exact List.mem_cons_of_mem _ (inside part later solid)
      · have other := splitWith_of_other (Bool.eq_false_iff.2 sep) hp
        by_cases finer : q c
        · refine ⟨_, _, _, _, other, splitWith_of_sep finer cs, fun solid => ?_, fun part hm solid => ?_⟩
          · exact absurd finer (Bool.eq_false_iff.1 (solid c List.mem_cons_self))
          · rw [hq]
            exact List.mem_cons_of_mem _ (inside part hm solid)
        · refine ⟨_, _, _, _, other, splitWith_of_other (Bool.eq_false_iff.2 finer) hq, fun solid => ?_, inside⟩
          rw [same fun d hd => solid d (List.mem_cons_of_mem _ hd)]
  obtain ⟨first, others, first', others', hp, hq, same, inside⟩ := refined cs
  rw [hp] at h
  rw [hq]
  rcases List.mem_cons.1 h with rfl | later
  · exact same solid ▸ List.mem_cons_self
  · exact List.mem_cons_of_mem _ (inside part later solid)

/-- Separators may be made equal before a text is split. -/
theorem splitWith_map {f : Char → Char} (hf : ∀ c, p (f c) = p c) (cs : List Char) :
    splitWith p (cs.map f) = (splitWith p cs).map (List.map f) := by
  induction cs with
  | nil => rfl
  | cons c cs ih =>
    rw [List.map_cons]
    by_cases sep : p c
    · rw [splitWith_of_sep ((hf c).trans sep), splitWith_of_sep sep, ih]
      rfl
    · obtain ⟨part, ps, hs⟩ := exists_splitWith_eq_cons p cs
      have mapped : splitWith p (cs.map f) = part.map f :: ps.map (List.map f) := by rw [ih, hs]; rfl
      rw [splitWith_of_other (Bool.eq_false_iff.2 sep) hs,
        splitWith_of_other ((hf c).trans (Bool.eq_false_iff.2 sep)) mapped]
      rfl

/-- Separators in front of a text separate nothing but empty parts. -/
theorem mem_splitWith_dropWhile (le : ∀ c, q c = true → p c = true) (h : part ∈ splitWith p cs) (hn : part ≠ []) :
    part ∈ splitWith p (cs.dropWhile q) := by
  induction cs with
  | nil => exact h
  | cons c cs ih =>
    by_cases front : q c
    · rw [splitWith_of_sep (le c front)] at h
      rw [List.dropWhile_cons_of_pos front]
      exact ih ((List.mem_cons.1 h).resolve_left hn)
    · rwa [List.dropWhile_cons_of_neg front]

end InPlace.Text

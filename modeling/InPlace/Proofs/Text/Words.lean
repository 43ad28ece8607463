import InPlace.Text.Blank

/-!
# Words that are joined

A word is not empty and holds no blank. The words of a text are words in this sense, and words that are joined by single
blanks are read back as they were. A text that is written anew from its words may have lost blanks, but no word.

Main statements: `isWord_of_mem_words` and `words_intercalate`.
-/

namespace InPlace.Text

variable {p : Char → Bool} {cs run w : List Char} {ws : List String}

/-- A text that can stand among others as one word. -/
structure IsWord (w : String) : Prop where
  nonempty : w ≠ ""
  solid : ∀ c ∈ w.toList, isBlank c = false

/-- No word is empty. -/
theorem ne_nil_of_mem_wordsFrom (h : w ∈ wordsFrom p run cs) : w ≠ [] := by
  induction cs generalizing run with
  | nil =>
    unfold wordsFrom at h
    split at h
    · cases h
    · rename_i read
      rw [List.mem_singleton.1 h]
      simpa using read
  | cons c cs ih =>
    unfold wordsFrom at h
    split at h
    · split at h
      · exact ih h
      · rename_i read
        rcases List.mem_cons.1 h with rfl | later
        · simpa using read
        · exact ih later
    · exact ih h

/-- What stands among the words of a text is a word. -/
theorem isWord_of_mem_words {s w : String} (h : w ∈ words s) : IsWord w := by
  refine ⟨?_, not_isBlank_of_mem_words h⟩
  obtain ⟨v, hv, rfl⟩ := List.mem_map.1 h
  intro empty
  exact ne_nil_of_mem_wordsFrom hv (by simpa using congrArg String.toList empty)

/-- Characters that separate nothing go to the word that is being read. -/
theorem wordsFrom_append (h : ∀ c ∈ w, p c = false) (run cs : List Char) :
    wordsFrom p run (w ++ cs) = wordsFrom p (w.reverse ++ run) cs := by
  induction w generalizing run with
  | nil => rfl
  | cons c w ih =>
    have inside : p c = false := h c List.mem_cons_self
    rw [List.cons_append, wordsFrom, inside, if_neg Bool.false_ne_true, ih fun d hd => h d (List.mem_cons_of_mem _ hd)]
    simp

/-- A text without separators is one word. -/
theorem wordsFrom_of_solid (hw : w ≠ []) (h : ∀ c ∈ w, p c = false) : wordsFrom p [] w = [w] := by
  have read := wordsFrom_append h [] []
  rw [List.append_nil, List.append_nil] at read
  rw [read, wordsFrom]
  simp [hw]

/-- A word comes off with the separator after it. -/
theorem wordsFrom_cons (hw : w ≠ []) (h : ∀ c ∈ w, p c = false) {sep : Char} (hsep : p sep = true) (cs : List Char) :
    wordsFrom p [] (w ++ sep :: cs) = w :: wordsFrom p [] cs := by
  rw [wordsFrom_append h, List.append_nil, wordsFrom, if_pos hsep]
  simp [hw]

/-- Words that are joined by single blanks are read back. -/
theorem words_intercalate (h : ∀ w ∈ ws, IsWord w) : words (" ".intercalate ws) = ws := by
  -- no word is empty, so the blank behind it ends it
  have chars : ∀ {w : String}, IsWord w → w.toList ≠ [] := fun hw he => hw.nonempty (String.toList_eq_nil_iff.1 he)
  unfold words wordsWith
  induction ws with
  | nil => rfl
  | cons w ws ih =>
    have first := h w List.mem_cons_self
    cases ws with
    | nil =>
      rw [String.intercalate_singleton, wordsFrom_of_solid (chars first) first.solid]
      simp
    | cons v ws =>
      have joined : (" ".intercalate (w :: v :: ws)).toList =
          w.toList ++ ' ' :: (" ".intercalate (v :: ws)).toList := by
        rw [String.intercalate_cons_cons]
        simp
      rw [joined, wordsFrom_cons (chars first) first.solid (show isBlank ' ' = true by decide), List.map_cons,
        ih fun u hu => h u (List.mem_cons_of_mem _ hu), String.ofList_toList]

end InPlace.Text

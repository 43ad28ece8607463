/-!
# Splitting texts

The parts of a text between separators.

Main statements: `not_mem_of_mem_splitWith` (no part holds a separator) and `length_splitWith` (there is one
part more than there are separators).
-/

namespace InPlace.Text

/-- The parts of a list of characters between those of `p`. -/
def splitWith (p : Char → Bool) : List Char → List (List Char)
  | [] => [[]]
  | c :: cs =>
    if p c then [] :: splitWith p cs
    else
      match splitWith p cs with
      | [] => [[c]]
      | part :: parts => (c :: part) :: parts

/-- There is one part more than there are separators. -/
theorem length_splitWith (p : Char → Bool) (cs : List Char) :
    (splitWith p cs).length = cs.countP p + 1 := by
  induction cs with
  | nil => rfl
  | cons c cs ih =>
      unfold splitWith
      by_cases hp : p c
      · simp [hp, ih]
      · cases hs : splitWith p cs with
        | nil => simp [hs] at ih
        | cons part parts =>
            rw [hs] at ih
            simpa [hp] using ih

/-- No part holds a separator. -/
theorem not_mem_of_mem_splitWith {p : Char → Bool} {cs part : List Char} (h : part ∈ splitWith p cs) :
    ∀ c ∈ part, p c = false := by
  induction cs generalizing part with
  | nil =>
      rcases List.mem_singleton.1 h with rfl
      intro c hc
      cases hc
  | cons d cs ih =>
      unfold splitWith at h
      by_cases hp : p d
      · rw [if_pos hp] at h
        rcases List.mem_cons.1 h with rfl | h
        · intro c hc
          cases hc
        · exact ih h
      · rw [if_neg hp] at h
        cases hs : splitWith p cs with
        | nil =>
            rw [hs] at h
            rcases List.mem_singleton.1 h with rfl
            intro c hc
            rcases List.mem_singleton.1 hc with rfl
            simpa using hp
        | cons first parts =>
            rw [hs] at h ih
            rcases List.mem_cons.1 h with rfl | h
            · intro c hc
              rcases List.mem_cons.1 hc with rfl | hc
              · simpa using hp
              · exact ih List.mem_cons_self c hc
            · exact ih (List.mem_cons_of_mem _ h)

/-- The parts of a text between those of a character. -/
def splitAt (sep : Char) (cs : List Char) : List (List Char) :=
  splitWith (· == sep) cs

end InPlace.Text

/-!
# Tables

Names with texts as values, in the order in which they were first given one: the attributes of an element
and the declarations of a style. A table that was read from a text may have a name twice; then the first
value counts.

Main statements: `get?_put` and `get?_drop` (a change of one name leaves the others alone).
-/

namespace InPlace

/-- Names with their values. -/
abbrev Table := List (String × String)

namespace Table

/-- The first value of a name. -/
def get? (name : String) : Table → Option String
  | [] => none
  | (k, v) :: t => if k = name then some v else get? name t

/-- Gives a name a value: in its first place, or at the end where it has none. -/
def put (name value : String) : Table → Table
  | [] => [(name, value)]
  | (k, v) :: t => if k = name then (name, value) :: t else (k, v) :: put name value t

/-- The table without a name. -/
def drop (name : String) (t : Table) : Table :=
  t.filter fun e => e.1 != name

/-- A name has the value it was given, the others keep theirs. -/
theorem get?_put (name other value : String) (t : Table) :
    get? other (put name value t) = if name = other then some value else get? other t := by
  induction t with
  | nil => simp [put, get?]
  | cons e t ih =>
      obtain ⟨k, v⟩ := e
      by_cases hk : k = name
      · subst hk
        by_cases h : k = other <;> simp [put, get?, h]
      · by_cases ho : k = other
        · subst ho
          simp [put, get?, hk, Ne.symm hk]
        · simp [put, get?, hk, ho, ih]

/-- A dropped name has no value, the others keep theirs. -/
theorem get?_drop (name other : String) (t : Table) :
    get? other (drop name t) = if name = other then none else get? other t := by
  induction t with
  | nil => simp [drop, get?]
  | cons e t ih =>
      obtain ⟨k, v⟩ := e
      unfold drop at ih ⊢
      by_cases hk : k = name
      · subst hk
        simp only [List.filter_cons, bne_self_eq_false, Bool.false_eq_true, if_false, get?]
        rw [ih]
        by_cases h : k = other <;> simp [h]
      · have : (k != name) = true := by simpa using hk
        simp only [List.filter_cons, this, if_true, get?]
        by_cases ho : k = other
        · subst ho
          simp [Ne.symm hk]
        · simp [ho, ih]

end Table

end InPlace

import InPlace.Page.Table
import Mathlib.Data.List.Induction

/-!
# Entries written in turn

Entries that are written into a table one after the other. A name has the value of the last entry that was written for
it, entries of other names stay as they are, repeated ones included, and names that the table did not have come after
those that it had, in the order in which they were first written. To write the same entries once more changes nothing:
on the way the values may change back and forth, but the last entry of each name is the last one again.

Main statements: `foldl_withLast`, `Table.get?_putAll`, `Table.names_putAll`, `Table.getElem?_putAll_of_not_mem` and
`Table.putAll_putAll`.
-/

namespace InPlace

/-! ## Lists that are added to -/

section

variable {α : Type} [BEq α] [LawfulBEq α] {x : α} {xs ys : List α}

/-- A list with an entry at its end, unless it has the entry already. -/
def withLast (xs : List α) (x : α) : List α :=
  if xs.contains x then xs else xs ++ [x]

theorem withLast_of_mem (h : x ∈ xs) : withLast xs x = xs :=
  if_pos (List.contains_iff_mem.2 h)

theorem withLast_of_not_mem (h : x ∉ xs) : withLast xs x = xs ++ [x] :=
  if_neg fun hc => h (List.contains_iff_mem.1 hc)

/-- The first occurrences in a list are all different. -/
theorem nodup_eraseDups : ∀ xs : List α, xs.eraseDups.Nodup
  | [] => List.nodup_nil
  | x :: xs => by
    rw [List.eraseDups_cons, List.nodup_cons, List.mem_eraseDups]
    have shorter := List.length_filter_le (fun y => !y == x) xs
    exact ⟨by simp, nodup_eraseDups _⟩
termination_by xs => xs.length

/-- Entries that are added one after the other come in the order in which they are first added, without those that the
list had. -/
theorem foldl_withLast (xs ys : List α) :
    ys.foldl withLast xs = xs ++ (ys.filter fun y => !xs.contains y).eraseDups := by
  induction ys generalizing xs with
  | nil => simp
  | cons y ys ih =>
    by_cases hy : y ∈ xs
    · have known : (!xs.contains y) = false := by simp [hy]
      rw [List.foldl_cons, withLast_of_mem hy, ih, List.filter_cons_of_neg (by rw [known]; decide)]
    · have new : (!xs.contains y) = true := by simp [hy]
      -- once added, the entry is among those that the list has, so each later one like it is passed over
      have others : (ys.filter fun z => !(xs ++ [y]).contains z) =
          (ys.filter fun z => !xs.contains z).filter fun z => !z == y := by
        rw [List.filter_filter]
        refine List.filter_congr fun z _ => ?_
        rw [List.contains_append, Bool.not_or, Bool.and_comm]
        simp [eq_comm]
      rw [List.foldl_cons, withLast_of_not_mem hy, ih, List.filter_cons_of_pos (p := fun z => !xs.contains z) new,
        List.eraseDups_cons, others,
        List.append_assoc, List.singleton_append]

/-- Entries that a list has already are not added. -/
theorem foldl_withLast_of_subset (h : ∀ y ∈ ys, y ∈ xs) : ys.foldl withLast xs = xs := by
  induction ys with
  | nil => rfl
  | cons y ys ih =>
    rw [List.foldl_cons, withLast_of_mem (h y List.mem_cons_self), ih fun z hz => h z (List.mem_cons_of_mem _ hz)]

end

namespace Table

variable {k l v w : String} {t : Table} {es : List (String × String)}

/-- The names of a table, as often as they are there. -/
def names (t : Table) : List String :=
  t.map Prod.fst

@[simp] theorem names_nil : names [] = [] := rfl

@[simp] theorem names_cons (e : String × String) (t : Table) : names (e :: t) = e.1 :: names t := rfl

theorem put_cons_self (k v w : String) (t : Table) : put k w ((k, v) :: t) = (k, w) :: t :=
  if_pos rfl

theorem put_cons_of_ne (h : l ≠ k) (v w : String) (t : Table) : put k w ((l, v) :: t) = (l, v) :: put k w t :=
  if_neg h

/-- A name that is given a value keeps its place, and a new one comes last. -/
theorem names_put (k v : String) (t : Table) : names (put k v t) = withLast (names t) k := by
  induction t with
  | nil => rfl
  | cons e t ih =>
    obtain ⟨l, w⟩ := e
    by_cases h : l = k
    · subst h
      rw [put_cons_self, names_cons, names_cons, withLast_of_mem List.mem_cons_self]
    · rw [put_cons_of_ne h, names_cons, names_cons, ih]
      by_cases hk : k ∈ names t
      · rw [withLast_of_mem hk, withLast_of_mem (List.mem_cons_of_mem _ hk)]
      · have new : k ∉ l :: names t := by simp [hk, Ne.symm h]
        rw [withLast_of_not_mem hk, withLast_of_not_mem new, List.cons_append]

theorem mem_names_put_of_mem (h : l ∈ names t) (k v : String) : l ∈ names (put k v t) := by
  rw [names_put, withLast]
  split
  · exact h
  · exact List.mem_append_left _ h

/-- Of two values for the same name the later one counts. -/
theorem put_put (k v w : String) (t : Table) : put k w (put k v t) = put k w t := by
  induction t with
  | nil => exact put_cons_self k v w []
  | cons e t ih =>
    obtain ⟨l, u⟩ := e
    by_cases h : l = k
    · subst h
      rw [put_cons_self, put_cons_self, put_cons_self]
    · rw [put_cons_of_ne h, put_cons_of_ne h, put_cons_of_ne h, ih]

/-- Two names are given values in any order, if one of them is there: the other one may be new. -/
theorem put_comm (h : k ≠ l) (hl : l ∈ names t) : put l w (put k v t) = put k v (put l w t) := by
  induction t with
  | nil => cases hl
  | cons e t ih =>
    obtain ⟨m, u⟩ := e
    by_cases hm : m = l
    · subst hm
      rw [put_cons_of_ne (Ne.symm h), put_cons_self, put_cons_self, put_cons_of_ne (Ne.symm h)]
    · have later : l ∈ names t := (List.mem_cons.1 hl).resolve_left (Ne.symm hm)
      by_cases hk : m = k
      · subst hk
        rw [put_cons_self, put_cons_of_ne h, put_cons_of_ne h, put_cons_self]
      · rw [put_cons_of_ne hk, put_cons_of_ne hm, put_cons_of_ne hm, put_cons_of_ne hk, ih later]

/-- An entry of another name stays as it is and where it is, also where the name is there twice. -/
theorem getElem?_put_of_ne {i : Nat} {e : String × String} (h : t[i]? = some e) (he : e.1 ≠ k) (v : String) :
    (put k v t)[i]? = some e := by
  induction t generalizing i with
  | nil => cases h
  | cons f t ih =>
    obtain ⟨l, w⟩ := f
    by_cases hl : l = k
    · subst hl
      rw [put_cons_self]
      cases i with
      | zero =>
        cases Option.some.inj h
        exact absurd rfl he
      | succ i => exact h
    · rw [put_cons_of_ne hl]
      cases i with
      | zero => exact h
      | succ i => exact ih h

/-! ## Many entries -/

/-- The table in which entries were written one after the other. -/
def putAll (es : List (String × String)) (t : Table) : Table :=
  es.foldl (fun t e => put e.1 e.2 t) t

@[simp] theorem putAll_nil (t : Table) : putAll [] t = t := rfl

@[simp] theorem putAll_cons (e : String × String) (es : List (String × String)) (t : Table) :
    putAll (e :: es) t = putAll es (put e.1 e.2 t) := rfl

theorem putAll_concat (es : List (String × String)) (e : String × String) (t : Table) :
    putAll (es ++ [e]) t = put e.1 e.2 (putAll es t) := by
  rw [putAll, List.foldl_append]
  rfl

/-- A name has the value of the last entry that was written for it, if there is one. -/
theorem get?_putAll (es : List (String × String)) (k : String) (t : Table) :
    get? k (putAll es t) = ((es.reverse.find? fun e => e.1 == k).map Prod.snd).or (get? k t) := by
  induction es using List.reverseRecOn with
  | nil => rfl
  | append_singleton es e ih =>
    rw [putAll_concat, get?_put, List.reverse_concat, List.find?_cons]
    by_cases h : e.1 = k
    · rw [if_pos h, beq_iff_eq.2 h]
      rfl
    · rw [if_neg h, beq_eq_false_iff_ne.2 h]
      exact ih

/-- The names that a table had keep their places. After them come the new ones, each once, in the order in which they
were first written. -/
theorem names_putAll (es : List (String × String)) (t : Table) :
    names (putAll es t) = names t ++ ((names es).filter fun k => !(names t).contains k).eraseDups := by
  have written : ∀ (es : List (String × String)) (t : Table),
      names (putAll es t) = (names es).foldl withLast (names t) := by
    intro es
    induction es with
    | nil => exact fun _ => rfl
    | cons e es ih =>
      intro t
      rw [putAll_cons, ih, names_put, names_cons, List.foldl_cons]
  rw [written, foldl_withLast]

theorem mem_names_putAll : k ∈ names (putAll es t) ↔ k ∈ names t ∨ k ∈ names es := by
  rw [names_putAll, List.mem_append, List.mem_eraseDups, List.mem_filter]
  by_cases h : k ∈ names t <;> simp [h]

/-- Entries of names that were not written stay as they are and where they are. -/
theorem getElem?_putAll_of_not_mem {i : Nat} {e : String × String} (h : t[i]? = some e) (he : e.1 ∉ names es) :
    (putAll es t)[i]? = some e := by
  induction es generalizing t with
  | nil => exact h
  | cons f es ih =>
    rw [names_cons, List.mem_cons, not_or] at he
    rw [putAll_cons]
    exact ih (getElem?_put_of_ne h he.1 f.2) he.2

/-- What a name was given before does not count if it is given a value after. The other names have to be there, or the
name would come in front of them. -/
theorem put_putAll_put (h : ∀ e ∈ es, e.1 ∈ names t) (k v w : String) :
    put k w (putAll es (put k v t)) = put k w (putAll es t) := by
  induction es generalizing t with
  | nil => exact put_put k v w t
  | cons e es ih =>
    obtain ⟨l, u⟩ := e
    have there : ∀ e ∈ es, e.1 ∈ names (put l u t) := fun e he =>
      mem_names_put_of_mem (h e (List.mem_cons_of_mem _ he)) l u
    rw [putAll_cons, putAll_cons]
    by_cases hk : k = l
    · subst hk
      rw [put_put]
    · rw [put_comm hk (h (l, u) List.mem_cons_self), ih there]

/-- To write the same entries once more changes nothing. -/
theorem putAll_putAll (es : List (String × String)) (t : Table) : putAll es (putAll es t) = putAll es t := by
  induction es using List.reverseRecOn with
  | nil => rfl
  | append_singleton es e ih =>
    have there : ∀ f ∈ es, f.1 ∈ names (putAll es t) := fun f hf =>
      mem_names_putAll.2 (.inr (List.mem_map_of_mem hf))
    -- the last entry is written in the end, and the ones before it change nothing by themselves
    rw [putAll_concat es e t, putAll_concat, put_putAll_put there, ih]

end Table

end InPlace

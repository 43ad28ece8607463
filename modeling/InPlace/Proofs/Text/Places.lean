import InPlace.Proofs.Text.Units
import Mathlib.Data.List.DropRight
import Mathlib.Data.Prod.Lex

/-!
# The order of places

Places are ordered by their lines, and on a line by their columns. Going on over a text leads to later places
only, so different beginnings of a text end at different places.

Main statements: `lt_after`, `eq_of_after_eq`, and `after_eq` (the place behind a text is the number of its
lines and the length of its last one).
-/

namespace InPlace.Text

namespace Position

/-- The numbers by which places are compared. -/
def key (p : Position) : ℕ ×ₗ ℕ :=
  toLex (p.line, p.column)

theorem key_injective : Function.Injective key := by
  intro p q h
  cases p
  cases q
  simpa [key] using h

instance : LinearOrder Position :=
  LinearOrder.lift' key key_injective

variable {p q : Position} {cs ds : List Char}

theorem lt_iff : p < q ↔ p.line < q.line ∨ p.line = q.line ∧ p.column < q.column :=
  Prod.Lex.lt_iff

theorem le_iff : p ≤ q ↔ p.line < q.line ∨ p.line = q.line ∧ p.column ≤ q.column :=
  Prod.Lex.le_iff

/-! ## Going on over a text -/

/-- Every character goes on to a later place. -/
theorem lt_advance (p : Position) (c : Char) : p < p.advance c := by
  have positive := units_pos c
  unfold advance
  split
  · exact lt_iff.2 (.inl (Nat.lt_succ_self _))
  · exact lt_iff.2 (.inr ⟨rfl, Nat.lt_add_of_pos_right positive⟩)

theorem after_cons (p : Position) (c : Char) (cs : List Char) :
    p.after (c :: cs) = (p.advance c).after cs :=
  rfl

theorem after_append (p : Position) (cs ds : List Char) : p.after (cs ++ ds) = (p.after cs).after ds :=
  List.foldl_append

theorem le_after (p : Position) (cs : List Char) : p ≤ p.after cs := by
  induction cs generalizing p with
  | nil => exact le_refl p
  | cons c cs ih => exact (lt_advance p c).le.trans (ih _)

theorem lt_after (p : Position) (h : cs ≠ []) : p < p.after cs := by
  cases cs with
  | nil => exact absurd rfl h
  | cons c cs => exact (lt_advance p c).trans_le (le_after _ cs)

/-- Of two beginnings of a text the one that ends at the same place as the other is the same. -/
theorem eq_of_after_eq {after after' : List Char} (h : cs ++ after = ds ++ after')
    (hplace : p.after cs = p.after ds) : cs = ds := by
  -- one of them begins with the other, and what it has behind that leads on
  have same : ∀ cs more, p.after cs = p.after (cs ++ more) → more = [] := by
    intro cs more heq
    by_contra hne
    rw [after_append] at heq
    exact absurd heq (lt_after _ hne).ne
  rcases List.append_eq_append_iff.1 h with ⟨more, rfl, -⟩ | ⟨more, rfl, -⟩
  · rw [same cs more hplace, List.append_nil]
  · rw [same ds more hplace.symm, List.append_nil]

/-- The line behind a text is the number of its line feeds, and the column the length of what follows the last
one. -/
theorem after_eq (cs : List Char) :
    Position.after ⟨0, 0⟩ cs = ⟨cs.count '\n', unitLength (cs.rtakeWhile (· != '\n'))⟩ := by
  induction cs using List.reverseRecOn with
  | nil => rfl
  | append_singleton cs c ih =>
    rw [after_append, ih, after_cons]
    unfold advance
    by_cases hc : c = '\n'
    · subst hc
      rw [if_pos rfl, List.count_append, List.count_singleton_self, List.rtakeWhile_concat_neg _ _ _ (by simp)]
      rfl
    · have other : (c == '\n') = false := beq_eq_false_iff_ne.2 hc
      rw [if_neg hc, List.count_append, List.count_singleton, other, if_neg Bool.false_ne_true,
        List.rtakeWhile_concat_pos (· != '\n') _ _ (bne_iff_ne.2 hc), unitLength_append]
      rfl

end Position

end InPlace.Text

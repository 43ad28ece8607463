import InPlace.Text.Units

/-!
# Lengths and places

A text has as many bytes as its characters together, and no line or column of it has a larger number than it has
units.

Main statements: `byteLength_toList`, `prefix_of_byteLength_le`, `slice?_eq_some` and `after_le_unitLength`.
-/

namespace InPlace.Text

theorem byteLength_append (cs ds : List Char) :
    byteLength (cs ++ ds) = byteLength cs + byteLength ds := by
  induction cs with
  | nil => simp [byteLength]
  | cons c cs ih =>
    simp only [List.cons_append, byteLength, ih]
    omega

/-- Only the empty text has no bytes. -/
theorem eq_nil_of_byteLength_eq_zero {cs : List Char} (h : byteLength cs = 0) : cs = [] := by
  cases cs with
  | nil => rfl
  | cons c cs =>
    have positive := c.utf8Size_pos
    simp only [byteLength] at h
    omega

/-- Of two beginnings of a text the one with fewer bytes is a beginning of the other. -/
theorem prefix_of_byteLength_le {before after before' after' : List Char}
    (h : before ++ after = before' ++ after') (hlen : byteLength before ≤ byteLength before') :
    ∃ cs, before' = before ++ cs ∧ after = cs ++ after' := by
  rcases List.append_eq_append_iff.1 h with ⟨cs, hbefore, hafter⟩ | ⟨cs, hbefore, hafter⟩
  · exact ⟨cs, hbefore, hafter⟩
  · rw [hbefore, byteLength_append] at hlen
    have none : cs = [] := eq_nil_of_byteLength_eq_zero (by omega)
    subst none
    exact ⟨[], by rw [hbefore, List.append_nil, List.append_nil], hafter.symm⟩

/-- The characters between two places are what stands there. -/
theorem slice?_eq_some {cs text : List Char} {start stop : Nat} : slice? cs start stop = some text ↔
    ∃ before after, cs = before ++ text ++ after ∧ byteLength before = start ∧
      byteLength (before ++ text) = stop := by
  unfold slice?
  constructor
  · intro h
    split at h
    · obtain ⟨⟨before, behind⟩, first, h⟩ := Option.bind_eq_some_iff.1 h
      obtain ⟨⟨_, after⟩, second, rfl⟩ := Option.map_eq_some_iff.1 h
      obtain ⟨rfl, start⟩ := splitAtByte?_eq_some.1 first
      obtain ⟨rfl, length⟩ := splitAtByte?_eq_some.1 second
      refine ⟨before, after, (List.append_assoc _ _ _).symm, start, ?_⟩
      rw [byteLength_append]
      dsimp only
      omega
    · cases h
  · rintro ⟨before, after, rfl, rfl, rfl⟩
    rw [byteLength_append, if_pos (Nat.le_add_right _ _), Nat.add_sub_cancel_left, List.append_assoc,
      splitAtByte?_append, Option.bind_some]
    dsimp only
    rw [splitAtByte?_append]
    rfl

/-- The place at a distance is the place behind what is in front of it. -/
theorem position?_of_append {cs before after : List Char} {offset : Nat} (h : cs = before ++ after)
    (hlen : byteLength before = offset) : position? cs offset = some (Position.after ⟨0, 0⟩ before) := by
  rw [position?, splitAtByte?_eq_some.2 ⟨h, hlen⟩, Option.map_some]

/-- The bytes of a text are those of its characters. -/
theorem byteLength_toList (s : String) : byteLength s.toList = s.utf8ByteSize := by
  have sized : ∀ cs : List Char, (String.ofList cs).utf8ByteSize = byteLength cs := by
    intro cs
    induction cs with
    | nil => rfl
    | cons c cs ih =>
      rw [String.ofList_cons, String.utf8ByteSize_append, String.utf8ByteSize_singleton, ih]
      rfl
  rw [← sized, String.ofList_toList]

/-- A character has no more units than bytes. -/
theorem units_le_utf8Size (c : Char) : units c ≤ c.utf8Size := by
  unfold units
  split
  · exact c.utf8Size_pos
  · rename_i h
    -- two units are for characters beyond the first plane, which have more than one byte
    have beyond : ¬ c.val ≤ 127 := by
      intro hle
      have small := UInt32.le_iff_toNat_le.1 hle
      have number : c.toNat = c.val.toNat := rfl
      have bound : (127 : UInt32).toNat = 127 := rfl
      omega
    show 2 ≤ if c.val ≤ 127 then 1 else if c.val ≤ 2047 then 2 else if c.val ≤ 65535 then 3 else 4
    rw [if_neg beyond]
    split
    · exact Nat.le_refl 2
    · split
      · exact Nat.le_succ 2
      · exact Nat.le_add_left 2 2

theorem unitLength_append (cs ds : List Char) : unitLength (cs ++ ds) = unitLength cs + unitLength ds := by
  induction cs with
  | nil => simp [unitLength]
  | cons c cs ih =>
    simp only [List.cons_append, unitLength, ih]
    omega

theorem units_pos (c : Char) : 0 < units c := by
  unfold units
  split
  · exact Nat.one_pos
  · exact Nat.two_pos

theorem unitLength_le_byteLength (cs : List Char) : unitLength cs ≤ byteLength cs := by
  induction cs with
  | nil => exact Nat.le_refl 0
  | cons c cs ih => exact Nat.add_le_add (units_le_utf8Size c) ih

/-- Going on over a text adds at most its units to the line and to the column. -/
theorem after_le_unitLength (p : Position) (cs : List Char) :
    (p.after cs).line ≤ p.line + unitLength cs ∧ (p.after cs).column ≤ p.column + unitLength cs := by
  induction cs generalizing p with
  | nil => exact ⟨Nat.le_refl _, Nat.le_refl _⟩
  | cons c cs ih =>
    have rest := ih (p.advance c)
    have step : (p.advance c).line ≤ p.line + units c ∧ (p.advance c).column ≤ p.column + units c := by
      have positive := units_pos c
      unfold Position.advance
      split
      · exact ⟨by dsimp only; omega, by dsimp only; omega⟩
      · exact ⟨by dsimp only; omega, by dsimp only; omega⟩
    have shape : p.after (c :: cs) = (p.advance c).after cs := rfl
    rw [shape]
    simp only [unitLength]
    omega

/-- Going on over a text adds at most its length to the line and to the column. -/
theorem after_le (p : Position) (cs : List Char) :
    (p.after cs).line ≤ p.line + byteLength cs ∧ (p.after cs).column ≤ p.column + byteLength cs := by
  have units := after_le_unitLength p cs
  have bytes := unitLength_le_byteLength cs
  omega

end InPlace.Text

/-!
# Places in a text

A place in a text is given by its distance in bytes (UTF-8) from the beginning. Columns are counted in
units of 16 bits (UTF-16) from the last line feed on.

Main statement: `splitAtByte?_eq_some` (a text is cut into its two parts exactly at the places between
characters).
-/

namespace InPlace.Text

/-- Bytes of a list of characters. -/
def byteLength : List Char → Nat
  | [] => 0
  | c :: cs => c.utf8Size + byteLength cs

/-- The characters before and after `n` bytes, unless `n` is past the end or inside a character. -/
def splitAtByte? : Nat → List Char → Option (List Char × List Char)
  | 0, cs => some ([], cs)
  | _ + 1, [] => none
  | n + 1, c :: cs =>
    if c.utf8Size ≤ n + 1 then
      (splitAtByte? (n + 1 - c.utf8Size) cs).map fun (a, b) => (c :: a, b)
    else none
  termination_by _ cs => cs.length

theorem splitAtByte?_zero (cs : List Char) : splitAtByte? 0 cs = some ([], cs) := by
  rw [splitAtByte?]

/-- Between two parts a text is cut. -/
theorem splitAtByte?_append (a b : List Char) : splitAtByte? (byteLength a) (a ++ b) = some (a, b) := by
  induction a with
  | nil => exact splitAtByte?_zero b
  | cons c a ih =>
    obtain ⟨n, hn⟩ := Nat.exists_eq_succ_of_ne_zero (Nat.ne_of_gt c.utf8Size_pos)
    have rest : c.utf8Size + byteLength a = n + byteLength a + 1 := by omega
    rw [byteLength, rest, List.cons_append, splitAtByte?, if_pos (by omega),
      show n + byteLength a + 1 - c.utf8Size = byteLength a by omega, ih]
    rfl

/-- What a text is cut into are its parts. -/
theorem of_splitAtByte? {n : Nat} {cs a b : List Char} (h : splitAtByte? n cs = some (a, b)) :
    cs = a ++ b ∧ byteLength a = n := by
  induction cs generalizing n a b with
  | nil =>
    cases n with
    | zero =>
      rw [splitAtByte?_zero] at h
      cases h
      exact ⟨rfl, rfl⟩
    | succ n =>
      rw [splitAtByte?] at h
      cases h
  | cons c cs ih =>
    cases n with
    | zero =>
      rw [splitAtByte?_zero] at h
      cases h
      exact ⟨rfl, rfl⟩
    | succ n =>
      rw [splitAtByte?] at h
      split at h
      · rename_i fits
        obtain ⟨⟨a', b'⟩, cut, same⟩ := Option.map_eq_some_iff.1 h
        cases same
        obtain ⟨rfl, length⟩ := ih cut
        exact ⟨rfl, by rw [byteLength, length, Nat.add_sub_cancel' fits]⟩
      · cases h

/-- A text is cut exactly at the places between characters. -/
theorem splitAtByte?_eq_some {n : Nat} {cs a b : List Char} :
    splitAtByte? n cs = some (a, b) ↔ cs = a ++ b ∧ byteLength a = n := by
  refine ⟨of_splitAtByte?, ?_⟩
  rintro ⟨rfl, rfl⟩
  exact splitAtByte?_append a b

/-- The characters between two places. -/
def slice? (cs : List Char) (start stop : Nat) : Option (List Char) :=
  if start ≤ stop then
    (splitAtByte? start cs).bind fun (_, rest) =>
      (splitAtByte? (stop - start) rest).map Prod.fst
  else none

/-- Units of a character: two for characters beyond 16 bits. -/
def units (c : Char) : Nat :=
  if c.toNat < 0x10000 then 1 else 2

/-- Units of a list of characters. -/
def unitLength : List Char → Nat
  | [] => 0
  | c :: cs => units c + unitLength cs

/-- A line and a column, both counted from zero. -/
structure Position where
  line : Nat
  column : Nat
  deriving DecidableEq, Repr, Inhabited

/-- The place after one more character. -/
def Position.advance (p : Position) (c : Char) : Position :=
  if c = '\n' then ⟨p.line + 1, 0⟩ else ⟨p.line, p.column + units c⟩

/-- The place after a list of characters. -/
def Position.after (p : Position) (cs : List Char) : Position :=
  cs.foldl Position.advance p

/-- The place at a distance of `offset` bytes, unless it is past the end or inside a character. -/
def position? (cs : List Char) (offset : Nat) : Option Position :=
  (splitAtByte? offset cs).map fun (before, _) => Position.after ⟨0, 0⟩ before

/-- The column of `offset` on the line that begins at `lineStart`. -/
def columnAt? (source : String) (lineStart offset : Nat) : Option Nat :=
  (slice? source.toList lineStart offset).map unitLength

end InPlace.Text

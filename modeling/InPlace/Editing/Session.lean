import InPlace.Messages.Notice

/-!
# Editing a text in place

While the text of an element is edited in the page, the text it had before is kept, so that it can be put
back.

Main statement: `outcome_changed_iff` (when a text counts as changed).
-/

namespace InPlace

/-- A text that is being edited. -/
structure Session (N : Type) where
  element : N
  /-- The text before. -/
  openingText : String
  identity : Option Identity
  deriving DecidableEq, Repr

namespace Session

variable {N : Type}

/-- How the editing ends with `currentText` in the element. Without `commit` the text before stands. -/
def outcome (s : Session N) (currentText : String) (commit : Bool) : EditOutcome :=
  -- a text that reads the same again was not changed
  let changed := commit && currentText != s.openingText
  { state := if changed then .saved else .cancelled
    text := if changed then currentText else s.openingText
    openingText := s.openingText
    metadata := s.identity
    changed }

/-- A text counts as changed if it is another one and is to be kept. -/
theorem outcome_changed_iff {s : Session N} {currentText : String} {commit : Bool} :
    (s.outcome currentText commit).changed = true ↔ commit = true ∧ currentText ≠ s.openingText := by
  simp [outcome]

end Session

end InPlace

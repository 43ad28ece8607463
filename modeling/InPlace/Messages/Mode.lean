import InPlace.Json.Choice

/-!
# Modes

How the editor in the page behaves: it leaves the page alone, it lets the user edit, or it holds still
while the host saves.
-/

namespace InPlace

/-- How the editor behaves. -/
inductive EditMode where
  | disabled
  | enabled
  | saving
  deriving DecidableEq, Repr, Inhabited

namespace EditMode

/-- The name of a mode. -/
def text : EditMode → String
  | disabled => "disabled"
  | enabled => "enabled"
  | saving => "saving"

/-- The names of the modes. -/
def names : List String :=
  ["disabled", "enabled", "saving"]

/-- The mode with a name. -/
def ofText? : String → Option EditMode
  | "disabled" => some disabled
  | "enabled" => some enabled
  | "saving" => some saving
  | _ => none

/-- Each mode is the one with its name. -/
theorem ofText?_text (m : EditMode) : ofText? m.text = some m := by
  cases m <;> rfl

/-- Whether clicks, keys and the pointer mean something to the editor. -/
def isActive : EditMode → Bool
  | disabled => false
  | _ => true

/-- The mode that a value chooses. -/
def ofJson? (j : Json) : Except Json.ChoiceFault EditMode :=
  (Json.choice? names j).map fun name => (ofText? name).getD disabled

end EditMode

end InPlace

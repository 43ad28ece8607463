import InPlace.Json.Printer
import InPlace.Text.Quoted

/-!
# Choices

A choice names one of several things. It is written as the name, or as an object with the name as its only
key and null under it.

Main statement: `choice?_str` (a name is accepted exactly if it is among the names).
-/

namespace InPlace.Json

/-- Why a value is no choice. -/
inductive ChoiceFault where
  /-- There is no such name. -/
  | unknown (name : String)
  /-- The value is neither a name nor an object. -/
  | noName (found : Json)
  /-- The object does not have exactly one key. -/
  | notSingle
  /-- Something other than null is under the name. -/
  | notNull (found : Json)

/-- The name that a value gives, and what is under it. -/
def choiceParts? : Json → Except ChoiceFault (String × Json)
  | str name => .ok (name, null)
  | obj [(name, j)] => .ok (name, j)
  | obj _ => .error .notSingle
  | j => .error (.noName j)

/-- The one of `names` that a value chooses. -/
def choice? (names : List String) (j : Json) : Except ChoiceFault String :=
  match choiceParts? j with
  | .error e => .error e
  | .ok (name, under) =>
    if name ∈ names then
      match under with
      | null => .ok name
      | other => .error (.notNull other)
    else .error (.unknown name)

/-- A name is accepted exactly if it is among the names. -/
theorem choice?_str {names : List String} {s n : String} :
    choice? names (str s) = .ok n ↔ s ∈ names ∧ n = s := by
  by_cases h : s ∈ names <;> simp [choice?, choiceParts?, h, eq_comm]

/-- A value as diagnostics name it. -/
def description : Json → String
  | null => "null"
  | bool b => "boolean \x60" ++ toString b ++ "\x60"
  | int n => "integer \x60" ++ toString n ++ "\x60"
  | float x => "floating point \x60" ++ floatText x ++ "\x60"
  | str s => "string " ++ Text.Quoted.quote s
  | arr _ => "sequence"
  | obj _ => "map"

/-- The wording of a fault in a choice among `names`. -/
def ChoiceFault.message (names : List String) : ChoiceFault → String
  | unknown name =>
    "unknown variant \x60" ++ name ++ "\x60, expected one of "
      ++ ", ".intercalate (names.map fun n => "\x60" ++ n ++ "\x60")
  | noName found => "invalid type: " ++ description found ++ ", expected string or map"
  | notSingle => "invalid value: map, expected map with a single key"
  | notNull found => "invalid type: " ++ description found ++ ", expected unit"

end InPlace.Json

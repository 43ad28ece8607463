import InPlace.Json.Basic

/-!
# Records

A record is a value with fixed fields. It is written as an object, or as the list of its fields in their
order; fields at the end of such a list may be missing when they have a value of their own.

Main statement: `record?_obj` (of an object every field is read that is there).
-/

namespace InPlace.Json

/-- How often a key is written. -/
def occurrences (k : String) (fields : List (String × Json)) : Nat :=
  fields.countP fun f => f.1 == k

/-- The fields of a record with these names. A list has at least `least` of them; an object has none of
them twice. -/
def record? (names : List String) (least : Nat) : Json → Option (List (String × Json))
  | obj fields => if names.all fun k => occurrences k fields ≤ 1 then some fields else none
  | arr items =>
    if least ≤ items.length && items.length ≤ names.length then some (names.zip items) else none
  | _ => none

/-- Of an object every field is read that is there. -/
theorem record?_obj {names : List String} {least : Nat} {fields : List (String × Json)}
    (h : ∀ k ∈ names, occurrences k fields ≤ 1) :
    record? names least (obj fields) = some fields := by
  simpa [record?] using h

/-- A field that has to be there. -/
def required? {α : Type} (read : Json → Option α) (k : String) (fields : List (String × Json)) :
    Option α :=
  (lookup k fields).bind read

/-- A field that may be missing or null. -/
def nullable? {α : Type} (read : Json → Option α) (k : String) (fields : List (String × Json)) :
    Option (Option α) :=
  match lookup k fields with
  | none => some none
  | some null => some none
  | some j => (read j).map some

/-- A field that has the value `default` where it is missing. -/
def withDefault? {α : Type} (read : Json → Option α) (default : α) (k : String)
    (fields : List (String × Json)) : Option α :=
  match lookup k fields with
  | none => some default
  | some j => read j

/-! ## Parts of records -/

/-- A finite number; one that is not finite has no value of its own. -/
def ofFloat (x : Float) : Json :=
  if x.isFinite then float x else null

/-- An object whose values are texts, in the order of its keys. -/
def texts? : Json → Option (List (String × String))
  | obj fields => fields.mapM fun f => f.2.str?.map fun s => (f.1, s)
  | _ => none

/-- An object whose fields are texts. -/
def ofTexts (texts : List (String × String)) : Json :=
  ofFields (texts.map fun f => (f.1, str f.2))

/-- The field, unless it has no value. -/
def present {α : Type} (k : String) (f : α → Json) : Option α → List (String × Json)
  | some a => [(k, f a)]
  | none => []

end InPlace.Json

/-!
# JSON values

Values with numbers of two kinds, as a program reads them: integers that fit in 64 bits, signed or not,
and floating-point numbers. The fields of an object are listed in the order in which they are written;
`Json.ofFields` gives an object in the order of code points with one value per key, which is how an object
is held when its keys are not known beforehand.

Main statement: `get?_insertField` (a field that was put into an object is found, the others stay).
-/

namespace InPlace

/-- A JSON value. -/
inductive Json where
  | null
  | bool (b : Bool)
  | int (n : Int)
  | float (x : Float)
  | str (s : String)
  | arr (items : List Json)
  | obj (fields : List (String × Json))
  deriving Inhabited

namespace Json

/-- The value under a key in a list of fields. -/
def lookup (k : String) : List (String × Json) → Option Json
  | [] => none
  | (l, v) :: fs => if l = k then some v else lookup k fs

/-- The value of a field; none for a value that is no object. -/
def get? (j : Json) (k : String) : Option Json :=
  match j with
  | obj fs => lookup k fs
  | _ => none

/-- Whether a value is an object. -/
def isObject : Json → Bool
  | obj _ => true
  | _ => false

/-- Puts a field in its place in a sorted list of fields, over an older one with the same key. -/
def insertField (k : String) (v : Json) : List (String × Json) → List (String × Json)
  | [] => [(k, v)]
  | (l, w) :: fs =>
    if k = l then (k, v) :: fs
    else if k < l then (k, v) :: (l, w) :: fs
    else (l, w) :: insertField k v fs

/-- A field that was put in is found, the others stay. -/
theorem get?_insertField (k l : String) (v : Json) (fs : List (String × Json)) :
    lookup l (insertField k v fs) = if k = l then some v else lookup l fs := by
  induction fs with
  | nil => simp [insertField, lookup]
  | cons f fs ih =>
      obtain ⟨m, w⟩ := f
      unfold insertField
      by_cases hkm : k = m
      · rw [if_pos hkm]
        by_cases hkl : k = l
        · simp [lookup, hkl]
        · simp [lookup, hkl, ← hkm]
      · rw [if_neg hkm]
        by_cases hlt : k < m
        · rw [if_pos hlt]
          simp [lookup]
        · rw [if_neg hlt]
          by_cases hml : m = l
          · simp [lookup, ← hml, hkm]
          · simp [lookup, hml, ih]

/-- Fields in the order of code points, of two with the same key the later one. -/
def sortFields (fs : List (String × Json)) : List (String × Json) :=
  fs.foldl (fun done f => insertField f.1 f.2 done) []

/-- An object with these fields, in the order of code points. -/
def ofFields (fs : List (String × Json)) : Json :=
  obj (sortFields fs)

mutual

/-- The value with the fields of every object in the order of code points. -/
def sorted : Json → Json
  | arr items => arr (sortedItems items)
  | obj fields => ofFields (sortedFields fields)
  | j => j

/-- Items with the fields in them sorted. -/
def sortedItems : List Json → List Json
  | [] => []
  | j :: js => j.sorted :: sortedItems js

/-- Fields with the fields in their values sorted; their own order stays. -/
def sortedFields : List (String × Json) → List (String × Json)
  | [] => []
  | (k, j) :: fs => (k, j.sorted) :: sortedFields fs

end

/-- The text, for a value that is one. -/
def str? : Json → Option String
  | str s => some s
  | _ => none

/-- The truth value that a value is. -/
def bool? : Json → Option Bool
  | bool b => some b
  | _ => none

/-- The natural number below `bound`. -/
def natBelow? (bound : Nat) : Json → Option Nat
  | int n => if 0 ≤ n ∧ n < bound then some n.toNat else none
  | _ => none

/-- Any number as a floating-point number. -/
def float? : Json → Option Float
  | int n => some (Float.ofInt n)
  | float x => some x
  | _ => none

/-- The items of an array. -/
def arr? : Json → Option (List Json)
  | arr items => some items
  | _ => none

/-- A list of texts. -/
def strings? : Json → Option (List String)
  | arr items => items.mapM str?
  | _ => none

/-- Texts as an array. -/
def ofStrings (ss : List String) : Json :=
  arr (ss.map str)

/-- A natural number as a value. -/
def ofNat (n : Nat) : Json :=
  int n

/-- The value, or null. -/
def ofOption {α : Type} (f : α → Json) : Option α → Json
  | some a => f a
  | none => null

end Json

end InPlace

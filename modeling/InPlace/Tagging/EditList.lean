import InPlace.Text.Units

/-!
# Edit lists

Insertions into a text that is not touched until all of them are known: every insertion is recorded with
its place in the source text, so recording one moves no other. Insertions at the same place keep the
order in which they were recorded.
-/

namespace InPlace.Tagging

/-- A text to be inserted at a distance of `offset` bytes from the beginning. -/
structure Insertion where
  offset : Nat
  text : String
  deriving DecidableEq, Repr, Inhabited

/-- A place that is past the end of a text of `length` bytes, or inside a character. -/
structure BadOffset where
  offset : Nat
  length : Nat
  deriving DecidableEq, Repr

/-- Which offset is bad, as it is printed. -/
def BadOffset.message (b : BadOffset) : String :=
  s!"Insertion offset {b.offset} is outside the source ({b.length} bytes)"

/-- Insertions in the order in which they were recorded. -/
structure EditList where
  insertions : List Insertion
  deriving DecidableEq, Repr, Inhabited

namespace EditList

/-- No insertions. -/
def empty : EditList := ⟨[]⟩

/-- Records one more insertion. -/
def insert (es : EditList) (offset : Nat) (text : String) : EditList :=
  ⟨es.insertions ++ [⟨offset, text⟩]⟩

/-- How many insertions there are. -/
def size (es : EditList) : Nat :=
  es.insertions.length

/-- The insertions from the first place to the last. -/
def sorted (es : EditList) : List Insertion :=
  es.insertions.mergeSort fun a b => a.offset ≤ b.offset

/-- Whether a place lies between two characters or at an end. -/
def isPlace (source : List Char) (offset : Nat) : Bool :=
  (Text.splitAtByte? offset source).isSome

/-- The first recorded insertion that has no place in the text. -/
def badOffset? (es : EditList) (source : String) : Option BadOffset :=
  (es.insertions.find? fun i => !isPlace source.toList i.offset).map fun i =>
    ⟨i.offset, source.utf8ByteSize⟩

/-- The text that is left of the source from `done` bytes on, with sorted insertions put in. An
insertion without a place is left out. -/
def splice (done : Nat) (rest : List Char) : List Insertion → List Char
  | [] => rest
  | i :: is =>
    match Text.splitAtByte? (i.offset - done) rest with
    | some (before, after) => before ++ i.text.toList ++ splice i.offset after is
    | none => splice done rest is

/-- The source with all insertions put in. -/
def apply (es : EditList) (source : String) : Except BadOffset String :=
  match es.badOffset? source with
  | some b => .error b
  | none => .ok (String.ofList (splice 0 source.toList es.sorted))

end EditList

end InPlace.Tagging

import InPlace.Files.Tree

/-!
# Changes to a file tree

What is in a tree and was not in an earlier one: files and links that are new or hold something else, and new
directories with nothing in them. A directory with something in it needs no mention, its entries lead to it.

Main statement: `changesAt_file_eq_nil_iff` (a file is left out just if it holds what it held).
-/

namespace InPlace.Files.Tree

/-- The entries of a directory; none of anything else. -/
def entries : Option Tree → List (String × Tree)
  | some (.dir es) => es
  | _ => []

/-- Whether a file held these bytes before. -/
def heldBytes (before : Option Tree) (content : ByteArray) : Bool :=
  match before with
  | some (.file old) => old == content
  | _ => false

/-- Whether a link led to this path before. -/
def heldTarget (before : Option Tree) (target : String) : Bool :=
  match before with
  | some (.link old) => old == target
  | _ => false

/-- Whether a directory stood there before. -/
def heldDir : Option Tree → Bool
  | some (.dir _) => true
  | _ => false

mutual

/-- The changes at a place, which held `before`, and below it. -/
def changesAt (before : Option Tree) (place : Place) : Tree → List (Place × Tree)
  | .file content => if heldBytes before content then [] else [(place, .file content)]
  | .link target => if heldTarget before target then [] else [(place, .link target)]
  | .dir [] => if heldDir before then [] else [(place, .dir [])]
  | .dir (e :: es) => changesAmong (entries before) place (e :: es)

/-- The changes below a directory, which had the entries `before`. -/
def changesAmong (before : List (String × Tree)) (place : Place) :
    List (String × Tree) → List (Place × Tree)
  | [] => []
  | (name, t) :: es =>
    changesAt (lookup name before) (place ++ [name]) t ++ changesAmong before place es

end

/-- A file is no change exactly if it was there with the same bytes. -/
theorem changesAt_file_eq_nil_iff (before : Option Tree) (place : Place) (content : ByteArray) :
    changesAt before place (.file content) = [] ↔ heldBytes before content = true := by
  simp [changesAt]

/-- The changes from one tree to another. -/
def changesTo (before after : Tree) : List (Place × Tree) :=
  changesAt (some before) [] after

end InPlace.Files.Tree

import InPlace.Json.Basic

/-!
# Identities

An identity names the place in the sources at which an element was written, as `path:line:column`. It is
an attribute of the element in the page, so any text may stand there; a text of another form is no
identity. The path may hold colons: line and column are the last two parts.
-/

namespace InPlace

/-- Attribute that carries the identity of an element. -/
def identityAttribute : String := "data-sg-el"

/-- Attribute that carries the name of an element. -/
def nameAttribute : String := "data-sg-name"

/-- An identity as it was found, with its parts. Lines are counted from one, columns from zero. -/
structure Identity where
  /-- The attribute value exactly as found. -/
  raw : String
  path : String
  line : UInt32
  column : UInt32
  deriving DecidableEq, Repr, Inhabited

namespace Identity

/-- The text of an identity. -/
def encode (path : String) (line column : UInt32) : String :=
  path ++ ":" ++ toString line.toNat ++ ":" ++ toString column.toNat

/-- The identity of a place. -/
def ofPlace (path : String) (line column : UInt32) : Identity :=
  ⟨encode path line column, path, line, column⟩

/-- The text of the parts of an identity. -/
def encoded (i : Identity) : String :=
  encode i.path i.line i.column

/-- The value of a digit after those that make up `n`, as long as 32 bits hold it. -/
def pushDigit (n : Option Nat) (c : Char) : Option Nat :=
  n.bind fun n =>
    if c.isDigit ∧ n * 10 + (c.toNat - '0'.toNat) < UInt32.size then
      some (n * 10 + (c.toNat - '0'.toNat))
    else none

/-- The number that a text of digits stands for. -/
def number? (cs : List Char) : Option UInt32 :=
  if cs.isEmpty then none else (cs.foldl pushDigit (some 0)).map UInt32.ofNat

/-- The parts of a text before and after its last colon. -/
def splitLast? (cs : List Char) : Option (List Char × List Char) :=
  let last := (cs.reverse.takeWhile (· != ':')).reverse
  match cs.reverse.dropWhile (· != ':') with
  | [] => none
  | _ :: before => some (before.reverse, last)

/-- The identity that a text stands for. -/
def parse? (raw : String) : Option Identity := do
  let (before, column) ← splitLast? raw.toList
  let column ← number? column
  let (path, line) ← splitLast? before
  let line ← number? line
  if path.isEmpty then none else some ⟨raw, String.ofList path, line, column⟩

/-- An identity as a message carries it. -/
def toJson (i : Identity) : Json :=
  .ofFields [("id", .str i.raw), ("filePath", .str i.path), ("line", .ofNat i.line.toNat),
    ("column", .ofNat i.column.toNat)]

end Identity

end InPlace

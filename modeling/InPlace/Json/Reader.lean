import InPlace.Json.Basic
import InPlace.Decimal.Reading

/-!
# Reading JSON

`Json.parse?` reads a value, `Json.parseRecord?` a value whose fields are known by name. A field that is
not asked for has to be well formed only: its texts may hold half a surrogate pair and its numbers may be
too large.

The reader works on characters and gives back what is left. A value ends before it begins anew, so the
number of characters bounds its depth.
-/

namespace InPlace.Json

/-! ## Texts -/

/-- The value of a hexadecimal digit, in letters of either case. -/
def hexValue (c : Char) : Option Nat :=
  if c.isDigit then some (c.toNat - '0'.toNat)
  else if 'a' ≤ c ∧ c ≤ 'f' then some (c.toNat - 'a'.toNat + 10)
  else if 'A' ≤ c ∧ c ≤ 'F' then some (c.toNat - 'A'.toNat + 10)
  else none

/-- Four hexadecimal digits. -/
def readHex4 : List Char → Option (Nat × List Char)
  | a :: b :: c :: d :: cs => do
    let a ← hexValue a
    let b ← hexValue b
    let c ← hexValue c
    let d ← hexValue d
    some (((a * 16 + b) * 16 + c) * 16 + d, cs)
  | _ => none

/-- What comes next in a text. -/
inductive TextStep where
  | done (rest : List Char)
  | char (c : Char) (rest : List Char)
  | refused

/-- The character of a numbered escape. Two escapes make one character beyond 16 bits; half of such a
pair is refused, or taken for U+FFFD where contents do not matter. -/
def readUnicode (strict : Bool) (cs : List Char) : TextStep :=
  let half := fun rest => if strict then TextStep.refused else .char '\uFFFD' rest
  match readHex4 cs with
  | none => .refused
  | some (n, rest) =>
    if 0xD800 ≤ n ∧ n < 0xDC00 then
      -- the first half of a pair
      match rest with
      | '\\' :: 'u' :: more =>
        match readHex4 more with
        | some (m, rest') =>
          if 0xDC00 ≤ m ∧ m < 0xE000 then
            .char (Char.ofNat (0x10000 + (n - 0xD800) * 0x400 + (m - 0xDC00))) rest'
          else half rest
        | none => half rest
      | _ => half rest
    else if 0xDC00 ≤ n ∧ n < 0xE000 then half rest
    else .char (Char.ofNat n) rest

/-- The next character of a text, or its end. -/
def readTextStep (strict : Bool) : List Char → TextStep
  | '"' :: cs => .done cs
  | '\\' :: '"' :: cs => .char '"' cs
  | '\\' :: '\\' :: cs => .char '\\' cs
  | '\\' :: '/' :: cs => .char '/' cs
  | '\\' :: 'b' :: cs => .char '\x08' cs
  | '\\' :: 'f' :: cs => .char '\x0c' cs
  | '\\' :: 'n' :: cs => .char '\n' cs
  | '\\' :: 'r' :: cs => .char '\r' cs
  | '\\' :: 't' :: cs => .char '\t' cs
  | '\\' :: 'u' :: cs => readUnicode strict cs
  | '\\' :: _ => .refused
  | c :: cs => if c.toNat < 0x20 then .refused else .char c cs
  | [] => .refused

/-- The characters up to the closing quote. -/
def readChars (strict : Bool) : Nat → List Char → Option (List Char × List Char)
  | 0, _ => none
  | n + 1, cs =>
    match readTextStep strict cs with
    | .done rest => some ([], rest)
    | .char c rest => (readChars strict n rest).map fun (t, more) => (c :: t, more)
    | .refused => none

/-- A text after its opening quote. -/
def readText (strict : Bool) (cs : List Char) : Option (String × List Char) :=
  (readChars strict (cs.length + 1) cs).map fun (t, rest) => (String.ofList t, rest)

/-! ## Numbers -/

/-- The values of decimal digits. -/
def digitValues (cs : List Char) : List Nat :=
  cs.map fun c => c.toNat - '0'.toNat

/-- A run of at least one digit. -/
def readDigits (cs : List Char) : Option (List Nat × List Char) :=
  match cs.takeWhile Char.isDigit with
  | [] => none
  | ds => some (digitValues ds, cs.dropWhile Char.isDigit)

/-- The part of a number before the point: a zero, or digits that begin with another one. -/
def readWhole : List Char → Option (List Nat × List Char)
  | '0' :: c :: cs => if c.isDigit then none else some ([0], c :: cs)
  | ['0'] => some ([0], [])
  | cs => readDigits cs

/-- The digits behind a decimal point, if there is one. -/
def readFraction : List Char → Option (Option (List Nat) × List Char)
  | '.' :: cs => (readDigits cs).map fun (ds, rest) => (some ds, rest)
  | cs => some (none, cs)

/-- The number with the digits. -/
def digitsToNat (ds : List Nat) : Nat :=
  ds.foldl (fun n d => n * 10 + d) 0

/-- The power of ten behind a number, if there is one. -/
def readPower (cs : List Char) : Option (Option Int × List Char) :=
  match cs with
  | c :: cs' =>
    if c == 'e' || c == 'E' then
      let (negative, ds) :=
        match cs' with
        | '-' :: r => (true, r)
        | '+' :: r => (false, r)
        | r => (false, r)
      (readDigits ds).map fun (n, rest) =>
        (some (if negative then -(digitsToNat n : Int) else digitsToNat n), rest)
    else some (none, cs)
  | [] => some (none, [])

/-- The parts of a number at the beginning of a text. -/
def readNumeral (cs : List Char) : Option (Decimal.Numeral × List Char) := do
  let (negative, cs) :=
    match cs with
    | '-' :: r => (true, r)
    | r => (false, r)
  let (whole, cs) ← readWhole cs
  let (fraction, cs) ← readFraction cs
  let (power, cs) ← readPower cs
  some (⟨negative, whole, fraction, power⟩, cs)

/-- The number at the beginning of a text. -/
def readNumber (strict : Bool) (cs : List Char) : Option (Json × List Char) :=
  match readNumeral cs with
  | none => none
  | some (n, rest) =>
    match n.value? with
    | some (.int i) => some (int i, rest)
    | some (.float x) => some (float x, rest)
    -- too large for any number
    | none => if strict then none else some (null, rest)

/-! ## Values -/

/-- What follows spaces and line breaks. -/
def skipSpace (cs : List Char) : List Char :=
  cs.dropWhile fun c => c == ' ' || c == '\t' || c == '\n' || c == '\r'

/-- The given characters, if they come next. -/
def readWord : List Char → List Char → Option (List Char)
  | [], cs => some cs
  | w :: ws, c :: cs => if w = c then readWord ws cs else none
  | _ :: _, [] => none

mutual

/-- A value, after white space. -/
def readValue : Nat → Bool → List Char → Option (Json × List Char)
  | 0, _, _ => none
  | n + 1, strict, cs =>
    match skipSpace cs with
    | '"' :: cs => (readText strict cs).map fun (s, rest) => (str s, rest)
    | '[' :: cs =>
      match skipSpace cs with
      | ']' :: rest => some (arr [], rest)
      | cs => (readItems n strict cs).map fun (js, rest) => (arr js, rest)
    | '\x7b' :: cs =>
      match skipSpace cs with
      | '\x7d' :: rest => some (obj [], rest)
      | cs => (readMembers n (fun _ => strict) cs).map fun (fs, rest) => (obj fs, rest)
    | 't' :: cs => (readWord "rue".toList cs).map fun rest => (bool true, rest)
    | 'f' :: cs => (readWord "alse".toList cs).map fun rest => (bool false, rest)
    | 'n' :: cs => (readWord "ull".toList cs).map fun rest => (null, rest)
    | cs => readNumber strict cs

/-- Values up to the closing bracket. -/
def readItems : Nat → Bool → List Char → Option (List Json × List Char)
  | 0, _, _ => none
  | n + 1, strict, cs =>
    match readValue n strict cs with
    | none => none
    | some (j, rest) =>
      match skipSpace rest with
      | ']' :: rest => some ([j], rest)
      | ',' :: rest => (readItems n strict rest).map fun (js, rest) => (j :: js, rest)
      | _ => none

/-- Fields up to the closing brace; `strict` says of which fields the contents matter. -/
def readMembers : Nat → (String → Bool) → List Char → Option (List (String × Json) × List Char)
  | 0, _, _ => none
  | n + 1, strict, cs =>
    match skipSpace cs with
    | '"' :: cs =>
      match readText true cs with
      | none => none
      | some (k, rest) =>
        match skipSpace rest with
        | ':' :: rest =>
          match readValue n (strict k) rest with
          | none => none
          | some (j, rest) =>
            match skipSpace rest with
            | '\x7d' :: rest => some ([(k, j)], rest)
            | ',' :: rest =>
              (readMembers n strict rest).map fun (fs, rest) => ((k, j) :: fs, rest)
            | _ => none
        | _ => none
    | _ => none

end

/-- The value that is written in a text, its fields as they are written. -/
def parse? (s : String) : Option Json :=
  match readValue (s.length + 1) true s.toList with
  | some (j, rest) => if (skipSpace rest).isEmpty then some j else none
  | none => none

/-- The object or list in a text of which the fields `names` are asked for. Of an object these fields are
given, as often as they are written. -/
def parseRecord? (names : List String) (s : String) : Option Json :=
  match skipSpace s.toList with
  | '\x7b' :: cs =>
    let body :=
      match skipSpace cs with
      | '\x7d' :: rest => some ([], rest)
      | cs => readMembers (s.length + 1) names.contains cs
    match body with
    | some (fs, rest) =>
      if (skipSpace rest).isEmpty then some (obj (fs.filter fun f => names.contains f.1)) else none
    | none => none
  | _ => parse? s

end InPlace.Json

import InPlace.Json.Basic
import InPlace.Decimal.Shortest

/-!
# Writing JSON

`Json.compact` writes a value without white space, `Json.pretty` with two spaces per level.

Floating-point numbers have the fewest digits that read back, and always a point or an exponent: they are
written out for exponents from -5 to 15, and with one digit before the point otherwise.
-/

namespace InPlace.Json

/-! ## Texts -/

/-- The sign of a hexadecimal digit. -/
def hexDigit (n : Nat) : Char :=
  (Nat.toDigits 16 n).headD '0'

/-- A character of a text: quotes, backslashes and control characters are escaped, the rest stands for
itself. -/
def escapeChar (c : Char) : List Char :=
  match c with
  | '"' => ['\\', '"']
  | '\\' => ['\\', '\\']
  | '\n' => ['\\', 'n']
  | '\r' => ['\\', 'r']
  | '\t' => ['\\', 't']
  | '\x08' => ['\\', 'b']
  | '\x0c' => ['\\', 'f']
  | c =>
    if c.toNat < 0x20 then ['\\', 'u', '0', '0', hexDigit (c.toNat / 16), hexDigit (c.toNat % 16)]
    else [c]

/-- A text in quotes. -/
def quote (s : String) : String :=
  "\"" ++ String.ofList (s.toList.flatMap escapeChar) ++ "\""

/-! ## Numbers -/

/-- Decimal digits as a text. -/
def digitsText (ds : List Nat) : String :=
  String.ofList (ds.map Nat.digitChar)

/-- A decimal written out, or with an exponent where it is too small or too large for that. -/
def decimalText (d : Decimal.Shortest) : String :=
  let e := d.exponent
  if 0 ≤ e && e ≤ 15 then
    let whole := d.digits.take (e.toNat + 1)
    let zeros := List.replicate (e.toNat + 1 - whole.length) 0
    let fraction := d.digits.drop (e.toNat + 1)
    digitsText (whole ++ zeros) ++ "." ++ digitsText (if fraction.isEmpty then [0] else fraction)
  else if -5 ≤ e && e < 0 then
    "0." ++ digitsText (List.replicate ((-e).toNat - 1) 0 ++ d.digits)
  else
    let power := (if e < 0 then "e-" else "e+") ++ toString e.natAbs
    match d.digits with
    | [n] => digitsText [n] ++ power
    | n :: ns => digitsText [n] ++ "." ++ digitsText ns ++ power
    | [] => "0" ++ power

/-- A floating-point number; one that is not finite has no text of its own and is written as null. -/
def floatText (x : Float) : String :=
  if x.isFinite then
    let (negative, m, q, coarse) := Decimal.partsOf x
    let text := if m == 0 then "0.0" else decimalText (Decimal.shortest m q coarse)
    if negative then "-" ++ text else text
  else "null"

/-! ## Values -/

mutual

/-- The value without white space. -/
def compact : Json → String
  | null => "null"
  | bool true => "true"
  | bool false => "false"
  | int n => toString n
  | float x => floatText x
  | str s => quote s
  | arr items => "[" ++ compactItems items ++ "]"
  | obj fields => "\x7b" ++ compactFields fields ++ "\x7d"

/-- Items without spaces, with commas between them. -/
def compactItems : List Json → String
  | [] => ""
  | [j] => j.compact
  | j :: js => j.compact ++ "," ++ compactItems js

/-- Fields without spaces, with commas between them. -/
def compactFields : List (String × Json) → String
  | [] => ""
  | [(k, j)] => quote k ++ ":" ++ j.compact
  | (k, j) :: fs => quote k ++ ":" ++ j.compact ++ "," ++ compactFields fs

end

/-- Two spaces per level. -/
def indent (level : Nat) : String :=
  String.ofList (List.replicate (2 * level) ' ')

mutual

/-- The value with one item per line, its lines indented from `level` on. -/
def prettyAt (level : Nat) : Json → String
  | arr [] => "[]"
  | arr (j :: js) =>
    "[\n" ++ prettyItems (level + 1) (j :: js) ++ "\n" ++ indent level ++ "]"
  | obj [] => "\x7b\x7d"
  | obj (f :: fs) =>
    "\x7b\n" ++ prettyFields (level + 1) (f :: fs) ++ "\n" ++ indent level ++ "\x7d"
  | null => "null"
  | bool true => "true"
  | bool false => "false"
  | int n => toString n
  | float x => floatText x
  | str s => quote s

/-- Items on lines of their own. -/
def prettyItems (level : Nat) : List Json → String
  | [] => ""
  | [j] => indent level ++ j.prettyAt level
  | j :: js => indent level ++ j.prettyAt level ++ ",\n" ++ prettyItems level js

/-- Fields on lines of their own. -/
def prettyFields (level : Nat) : List (String × Json) → String
  | [] => ""
  | [(k, j)] => indent level ++ quote k ++ ": " ++ j.prettyAt level
  | (k, j) :: fs =>
    indent level ++ quote k ++ ": " ++ j.prettyAt level ++ ",\n" ++ prettyFields level fs

end

/-- The value with one item per line. -/
def pretty (j : Json) : String :=
  j.prettyAt 0

end InPlace.Json

import InPlace.Text.Unseen

/-!
# Quoted texts

A text in double quotes for a diagnostic: quotes, backslashes and characters without a shape of their own
are escaped, by a letter where there is one and by number otherwise.

Main statement: `quoteMark_not_mem_escaped` (what stands for another character holds no quote).
-/

namespace InPlace.Text.Quoted

/-- A number in hexadecimal digits. -/
def hex (n : Nat) : List Char :=
  Nat.toDigits 16 n

/-- What stands for a character between the quotes. -/
def escape (c : Char) : List Char :=
  match c with
  | '\x00' => ['\\', '0']
  | '\t' => ['\\', 't']
  | '\r' => ['\\', 'r']
  | '\n' => ['\\', 'n']
  | '"' => ['\\', '"']
  | '\\' => ['\\', '\\']
  | c => if isUnseen c then ['\\', 'u', '\x7b'] ++ hex c.toNat ++ ['\x7d'] else [c]

/-- The text in quotes. -/
def quote (s : String) : String :=
  "\"" ++ String.ofList (s.toList.flatMap escape) ++ "\""

/-- A path in quotes; in it single quotes are escaped as well. -/
def quotePath (s : String) : String :=
  "\"" ++ String.ofList (s.toList.flatMap fun c => if c = '\'' then ['\\', c] else escape c) ++ "\""

/-- A text that may be missing. -/
def quote? : Option String → String
  | some s => "Some(" ++ quote s ++ ")"
  | none => "None"

/-- What stands for a character that is no quote, and has a shape, holds no quote. -/
theorem quoteMark_not_mem_escaped (c : Char) (h : c ≠ '"') (hu : isUnseen c = false) :
    '"' ∉ escape c := by
  unfold escape
  split <;> simp_all
  exact Ne.symm h

end InPlace.Text.Quoted

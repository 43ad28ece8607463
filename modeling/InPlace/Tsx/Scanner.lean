import InPlace.Text.Blank
import InPlace.Text.Units

/-!
# Cursors and scanners

A cursor is a place in a source: the characters from there on, and their distance in bytes from the
beginning. A scanner moves a cursor over one piece of text or refuses it. The combinators below are
those of regular expressions, with the difference that a repetition never gives anything back.
-/

namespace InPlace.Tsx

/-- A place in a source. -/
structure Cursor where
  offset : Nat
  rest : List Char
  deriving Inhabited

/-- The characters between a cursor and a later one of the same source. -/
def Cursor.upTo (c d : Cursor) : List Char :=
  ((Text.splitAtByte? (d.offset - c.offset) c.rest).map Prod.fst).getD []

/-- Moves over a piece of text, or refuses. -/
abbrev Scanner := Cursor → Option Cursor

namespace Scanner

/-- One character of the class `p`. -/
def char (p : Char → Bool) : Scanner
  | ⟨o, c :: cs⟩ => if p c then some ⟨o + c.utf8Size, cs⟩ else none
  | ⟨_, []⟩ => none

/-- Exactly these characters. -/
def chars : List Char → Scanner
  | [], c => some c
  | d :: ds, c => (char (· == d) c).bind (chars ds)

/-- Exactly this text. -/
def text (s : String) : Scanner :=
  chars s.toList

/-- One scanner after the other. -/
def andThen (s t : Scanner) : Scanner := fun c =>
  (s c).bind t

/-- All scanners of a list, in order. -/
def all (ss : List Scanner) : Scanner :=
  ss.foldr andThen some

/-- The first scanner of a list that does not refuse. -/
def any (ss : List Scanner) : Scanner := fun c =>
  ss.findSome? (· c)

/-- Of the scanners of a list the one that comes furthest. -/
def furthest (ss : List Scanner) : Scanner := fun c =>
  ss.foldl (fun best s =>
    match best, s c with
    | some b, some d => if b.offset < d.offset then some d else some b
    | none, d => d
    | b, none => b) none

/-- The scanner, or nothing. -/
def optional (s : Scanner) : Scanner := fun c =>
  some ((s c).getD c)

/-- At most `n` repetitions, as many as possible. -/
def upTo (s : Scanner) : Nat → Cursor → Cursor
  | 0, c => c
  | n + 1, c =>
    match s c with
    | some d => upTo s n d
    | none => c

/-- As many repetitions as possible, at most one per element of the list. -/
def perElement (s : Scanner) : List Char → Cursor → Cursor
  | [], c => c
  | _ :: bound, c =>
    match s c with
    | some d => perElement s bound d
    | none => c

/-- As many repetitions as possible. A repetition that moves takes a character, so the characters that
are left bound their number. -/
def many (s : Scanner) : Scanner := fun c =>
  some (perElement s c.rest c)

/-- At least one repetition, as many as possible. -/
def many1 (s : Scanner) : Scanner :=
  andThen s (many s)

/-- At least one repetition, at most `n`, as many as possible. -/
def many1UpTo (n : Nat) (s : Scanner) : Scanner :=
  andThen s fun c => some (upTo s (n - 1) c)

/-- Succeeds without moving where `s` refuses. -/
def without (s : Scanner) : Scanner := fun c =>
  if (s c).isSome then none else some c

/-- Succeeds without moving where `p` holds. -/
def guard (p : Cursor → Bool) : Scanner := fun c =>
  if p c then some c else none

end Scanner

end InPlace.Tsx

import InPlace.Json.Basic

/-!
# Values between windows

Values that are sent from one window to another have numbers of a single kind. Integers of at most 53 bits
are exact among them and read as integers, however they were written; every other number is a
floating-point number.

Main statement: `transferred_int` (what becomes of an integer).
-/

namespace InPlace.Json

/-- The largest integer up to which all of them are exact. -/
def maxExact : Nat := (1 <<< 53) - 1

/-- The integer that a floating-point number is, if it is an exact one. -/
def exactInt? (x : Float) : Option Int :=
  if x.floor == x && x.abs ≤ Float.ofNat maxExact then some x.toInt64.toInt else none

/-- A floating-point number after it was sent. -/
def transferredFloat (x : Float) : Json :=
  match exactInt? x with
  | some n => int n
  | none => float x

mutual

/-- The value after it was sent. -/
def transferred : Json → Json
  | int n => if n.natAbs ≤ maxExact then int n else float (Float.ofInt n)
  | float x => transferredFloat x
  | arr items => arr (transferredItems items)
  | obj fields => obj (transferredFields fields)
  | j => j

/-- Items after they were sent. -/
def transferredItems : List Json → List Json
  | [] => []
  | j :: js => j.transferred :: transferredItems js

/-- Fields after they were sent. -/
def transferredFields : List (String × Json) → List (String × Json)
  | [] => []
  | (k, j) :: fs => (k, j.transferred) :: transferredFields fs

end

/-- An exact integer stays as it is. -/
theorem transferred_int {n : Int} (h : n.natAbs ≤ maxExact) : (int n).transferred = int n := by
  simp [transferred, h]

end InPlace.Json

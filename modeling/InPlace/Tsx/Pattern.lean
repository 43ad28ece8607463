import InPlace.Tsx.Tree
import InPlace.Tsx.Scanner

/-!
# Patterns

A grammar gives a pattern to each of its rules. A pattern describes texts, and with `start` and
`finish` the nodes that are made of them. `Pattern.run` finds every place at which a text of the
pattern can end, the preferred reading first; of two readings with the same end the later one is
dropped (`firstPerEnd`), so the number of readings never exceeds that of the places of the source.

A run is bounded by a number of steps, which `stepBound` computes from the length of the source: a
rule that moves no cursor calls no rule twice, so a run nests at most once per place and pattern.
-/

namespace InPlace.Tsx

/-- Descriptions of texts over the rules `ρ`. -/
inductive Pattern (ρ : Type) where
  /-- The empty text. -/
  | empty
  | scan (s : Scanner)
  | rule (r : ρ)
  | seq (p q : Pattern ρ)
  /-- Either pattern, the first one preferred. -/
  | or (p q : Pattern ρ)
  /-- Any number of texts of `p`, more preferred to fewer. -/
  | many (p : Pattern ρ)
  /-- As many texts of `p` as there are. -/
  | manyMax (p : Pattern ρ)
  /-- A node begins at the next lexeme. -/
  | start
  /-- The innermost node ends here. -/
  | finish (kind : NodeKind) (role : Option Role)

namespace Pattern

variable {ρ : Type}

/-- One pattern after the other. -/
def all : List (Pattern ρ) → Pattern ρ
  | [] => empty
  | [p] => p
  | p :: ps => seq p (all ps)

/-- Any pattern of a list, the first ones preferred. -/
def any : List (Pattern ρ) → Pattern ρ
  | [] => scan fun _ => none
  | [p] => p
  | p :: ps => or p (any ps)

/-- What a pattern stands for, or nothing. -/
def optional (p : Pattern ρ) : Pattern ρ :=
  or p empty

/-- One or more texts of `p` with `separator` between them. -/
def separated (separator p : Pattern ρ) : Pattern ρ :=
  seq p (many (seq separator p))

/-- A node of kind `k` around `p`. -/
def node (k : NodeKind) (p : Pattern ρ) : Pattern ρ :=
  all [start, p, finish k none]

/-- A node of kind `k` around `p` that plays the part `r` in its parent. -/
def nodeAs (r : Role) (k : NodeKind) (p : Pattern ρ) : Pattern ρ :=
  all [start, p, finish k (some r)]

end Pattern

/-- A reading of a part of the source: where it ends, and the nodes found, last event first. -/
structure Reading where
  cursor : Cursor
  events : List Event

namespace Reading

/-- The readings that end at none of the offsets `seen` and not where an earlier one does. -/
def firstPerEndFrom (seen : List Nat) : List Reading → List Reading
  | [] => []
  | r :: rs =>
    if seen.contains r.cursor.offset then firstPerEndFrom seen rs
    else r :: firstPerEndFrom (r.cursor.offset :: seen) rs

/-- The readings without those that end where an earlier one does. -/
def firstPerEnd (rs : List Reading) : List Reading :=
  firstPerEndFrom [] rs

end Reading

namespace Pattern

variable {ρ : Type}

/-- Every way to read a text of the pattern from the cursor on. `skip` moves a cursor to the next
lexeme. -/
def run (rules : ρ → Pattern ρ) (skip : Cursor → Cursor) :
    Nat → Pattern ρ → Reading → List Reading
  | 0, _, _ => []
  | _ + 1, empty, r => [r]
  | _ + 1, scan s, r => ((s r.cursor).map fun c => ⟨c, r.events⟩).toList
  | n + 1, rule ρ, r => Reading.firstPerEnd (run rules skip n (rules ρ) r)
  | n + 1, seq p q, r => (run rules skip n p r).flatMap (run rules skip n q)
  | n + 1, or p q, r => run rules skip n p r ++ run rules skip n q r
  -- a text of no length is not repeated
  | n + 1, many p, r =>
    let further := (run rules skip n p r).filter fun s => r.cursor.offset < s.cursor.offset
    further.flatMap (run rules skip n (many p)) ++ [r]
  | n + 1, manyMax p, r =>
    let further := (run rules skip n p r).filter fun s => r.cursor.offset < s.cursor.offset
    if further.isEmpty then [r]
    else Reading.firstPerEnd (further.flatMap (run rules skip n (manyMax p)))
  | _ + 1, start, r => [⟨r.cursor, .start (skip r.cursor).offset :: r.events⟩]
  | _ + 1, finish k role, r => [⟨r.cursor, .finish k role r.cursor.offset :: r.events⟩]

/-- Enough steps for any reading of a source of `n` characters with a grammar whose rules and patterns
nest at most `depth` deep without moving. -/
def stepBound (depth n : Nat) : Nat :=
  depth * (n + 1)

/-- The nodes of the preferred reading of the whole source, if it is a text of the pattern. -/
def parse (rules : ρ → Pattern ρ) (skip : Cursor → Cursor) (depth : Nat) (p : Pattern ρ)
    (source : String) : Option (List Node) :=
  let begin : Reading := ⟨⟨0, source.toList⟩, []⟩
  ((run rules skip (stepBound depth source.length) p begin).find? fun r =>
    (skip r.cursor).rest.isEmpty).map fun r => Node.ofEvents r.events.reverse

end Pattern

end InPlace.Tsx

import InPlace.Tsx.Pattern
import InPlace.Tsx.Lexeme

/-!
# The rules of the TSX grammar

The names of the rules, and the patterns of single lexemes that the rules are written with. The rules
are kept only as fine as the texts they accept need: operators are not ranked, since ranking changes
how an expression is grouped and not whether it is one.
-/

namespace InPlace.Tsx

/-- What may end a phrase. -/
inductive Ending
  /-- Only a closing bracket or a separator: line ends mean nothing. -/
  | enclosed
  /-- An expression that the end of a line may end. -/
  | expression
  /-- A type that the end of a line may end. -/
  | type
  deriving DecidableEq, Repr

/-- The rules of the grammar. -/
inductive Rule
  | program
  | statement
  | declaration
  | block
  | classBody
  | classMember
  /-- A comma-separated list of expressions. -/
  | expressions (e : Ending)
  | expression (e : Ending)
  | operand (e : Ending)
  | arguments
  | template
  | objectMember
  | propertyName
  | parameters
  | callSignature
  | bindingTarget
  | decorator
  | type (e : Ending)
  | typeOperand (e : Ending)
  | typeArguments
  | typeParameters
  | objectType
  | element
  | elementHead
  | tagAttribute
  | elementChild
  /-- `{ … }` in an element. -/
  | insertion
  deriving DecidableEq, Repr

namespace Grammar

open Pattern

/-- A sign, wherever an operand or a separator may stand. -/
def sign (s : String) : Pattern Rule :=
  scan fun c => Scanner.text s (Lexeme.wideGap c)

/-- A sign after an operand. -/
def operatorSign (s : String) : Pattern Rule :=
  scan fun c => Scanner.text s (Lexeme.gap c)

/-- A word that is read as it stands. -/
def keyword (w : String) : Pattern Rule :=
  scan fun c => Lexeme.keyword w (Lexeme.wideGap c)

/-- One of the words. -/
def anyKeyword (ws : List String) : Pattern Rule :=
  scan fun c =>
    match Lexeme.word (Lexeme.wideGap c) with
    | some d => if ws.contains (Lexeme.between (Lexeme.wideGap c) d) then some d else none
    | none => none

/-- A lexeme after white space and comments. -/
def lexeme (s : Scanner) : Pattern Rule :=
  scan fun c => s (Lexeme.wideGap c)

/-- Any word, keywords included. -/
def name : Pattern Rule :=
  lexeme Lexeme.word

/-- A member name, private ones included. -/
def memberName : Pattern Rule :=
  or name (seq (sign "#") (scan Lexeme.word))

/-- A semicolon, written or understood. -/
def semicolon (operators : Bool) : Pattern Rule :=
  or (sign ";") (scan (Scanner.guard (Lexeme.endsLine operators false)))

/-- The phrase has not come to its end. -/
def goesOn : Ending → Pattern Rule
  | .enclosed => empty
  | .expression => scan (Scanner.guard fun c => !Lexeme.endsLine true false c)
  | .type => scan (Scanner.guard fun c => !Lexeme.endsLine false false c)

/-- Any number of `p`, separated by commas, places left out included. -/
def commaPlaces (p : Pattern Rule) : Pattern Rule :=
  separated (sign ",") (optional p)

/-- One or more `p`, separated by commas. -/
def commaList (p : Pattern Rule) : Pattern Rule :=
  separated (sign ",") p

/-- One or more `p`, separated by commas, with a last comma allowed. -/
def commaListOpen (p : Pattern Rule) : Pattern Rule :=
  seq (commaList p) (optional (sign ","))

end Grammar

end InPlace.Tsx

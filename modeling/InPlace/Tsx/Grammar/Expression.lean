import InPlace.Tsx.Grammar.Types

/-!
# Expressions

An expression is an operand and what goes on after it: an operator and another expression, the two
branches of a condition, or a type. Only an operand that can stand for a place is followed by an
assignment.
-/

namespace InPlace.Tsx.Grammar

open Pattern

/-- Words that are no names where an expression begins. -/
def expressionWords : List String :=
  ["function", "class", "new", "true", "false", "null", "typeof", "void", "delete", "await", "yield",
    "import"]

/-- Signs between two operands. Those that others begin with come later. -/
def binarySigns : List String :=
  ["&&", "||", ">>>", ">>", "<<", "&", "^", "|", "+", "-", "**", "*", "/", "%", "<=", "<", "===", "==",
    "!==", "!=", ">=", ">", "??"]

/-- Signs that assign. -/
def assignmentSigns : List String :=
  ["=", "+=", "-=", "*=", "/=", "%=", "^=", "&=", "|=", ">>=", ">>>=", "<<=", "**=", "&&=", "||=",
    "??="]

/-- The longest sign that stands at the cursor, among those that follow an operand. -/
def longestSign (c : Cursor) : Option (String × Cursor) :=
  (binarySigns ++ assignmentSigns).foldl (fun best s =>
    match Scanner.text s c, best with
    | some d, some (_, b) => if b.offset < d.offset then some (s, d) else best
    | some d, none => some (s, d)
    | none, _ => best) none

/-- A sign of the list `signs`, unless it is the beginning of a longer sign. -/
def signOf (signs : List String) : Pattern Rule :=
  scan fun c =>
    match longestSign (Lexeme.gap c) with
    | some (s, d) => if signs.contains s then some d else none
    | none => none

/-- A sign or a word between two operands. -/
def binaryOperator : Pattern Rule :=
  or (signOf binarySigns)
    (scan fun c => Scanner.any [Lexeme.keyword "in", Lexeme.keyword "instanceof"] (Lexeme.gap c))

/-- The question mark of a condition, which is neither `??` nor `?.` before a name. -/
def conditionSign : Pattern Rule :=
  scan fun c => Scanner.all [Scanner.text "?", Scanner.without (Scanner.text "?"),
    Scanner.without (Scanner.all [Scanner.text ".", Scanner.without (Scanner.char Char.isDigit)])]
    (Lexeme.gap c)

/-- What goes on after an operand. -/
def continuation (e : Ending) (place : Bool) : Pattern Rule :=
  or
    (seq (goesOn e) (any [
      if place then seq (signOf assignmentSigns) (rule (.expression e)) else any [],
      seq binaryOperator (rule (.expression e)),
      all [conditionSign, rule (.expression .enclosed), sign ":", rule (.expression e)]]))
    empty

/-- `as type` or `satisfies type` after an operand, at least once. -/
def typeClaims (e : Ending) : Pattern Rule :=
  let claim := all [goesOn e, or (keyword "as") (keyword "satisfies"), rule (.type e)]
  seq claim (many claim)

/-- What goes on after an operand with its accesses. -/
def remainder (e : Ending) (place : Bool) : Pattern Rule :=
  any [seq (typeClaims e) (continuation e false),
    all [goesOn e, rule .typeArguments, continuation e false],
    continuation e place]

/-- Three dots and what is spread. -/
def spread : Pattern Rule :=
  seq (sign "...") (rule (.expression .enclosed))

/-- Arguments of a call, in parentheses. -/
def arguments : Pattern Rule :=
  all [sign "(", commaPlaces (or spread (rule (.expression .enclosed))), sign ")"]

/-- A template with its insertions, after the opening mark. -/
def template : Pattern Rule :=
  all [scan (Scanner.text "\x60"),
    manyMax (any [scan Lexeme.templateText, scan Lexeme.escape,
      all [scan (Scanner.text "$\x7b"), rule (.expressions .enclosed), sign "\x7d"]]),
    scan (Scanner.text "\x60")]

/-- The template behind the next white space. -/
def spacedTemplate : Pattern Rule :=
  seq (scan fun c => some (Lexeme.gap c)) (rule .template)

/-- Members, calls and marks after an operand. -/
def access : Pattern Rule :=
  any [
    seq (operatorSign ".") memberName,
    seq (operatorSign "?.") (any [memberName,
      all [sign "[", rule (.expressions .enclosed), sign "]"],
      seq (optional (rule .typeArguments)) (rule .arguments)]),
    all [operatorSign "[", rule (.expressions .enclosed), sign "]"],
    seq (optional (rule .typeArguments)) (or (rule .arguments) spacedTemplate),
    seq (operatorSign "!") (scan (Scanner.without (Scanner.text "="))),
    operatorSign "++",
    operatorSign "--"]

/-- Members, calls and marks after an operand that the end of a line may end. -/
def accesses (e : Ending) : Pattern Rule :=
  manyMax (seq (goesOn e) access)

/-- A function, with or without a name. -/
def functionExpression : Pattern Rule :=
  all [optional (keyword "async"), keyword "function", optional (sign "*"), optional name,
    rule .callSignature, rule .block]

/-- What a class extends and implements. -/
def classHeritage : Pattern Rule :=
  seq
    (optional (seq (keyword "extends") (commaList (rule (.expression .enclosed)))))
    (optional (seq (keyword "implements") (commaList (rule (.type .enclosed)))))

/-- A class whose name is as the pattern says. -/
def classFrom (className : Pattern Rule) : Pattern Rule :=
  all [many (rule .decorator), optional (keyword "abstract"), keyword "class", className,
    optional (rule .typeParameters), classHeritage, rule .classBody]

/-- An array, with places that may be empty. -/
def array : Pattern Rule :=
  all [sign "[", commaPlaces (or spread (rule (.expression .enclosed))), sign "]"]

/-- A member of an object: spread, with a value, a method or a name alone. -/
def objectMember : Pattern Rule :=
  any [spread,
    all [rule .propertyName, sign ":", rule (.expression .enclosed)],
    all [memberHead, optional (sign "?"), rule .callSignature, rule .block],
    name]

/-- An object with its members. -/
def object : Pattern Rule :=
  all [sign "\x7b", commaPlaces (rule .objectMember), sign "\x7d"]

/-- The name of a property, which may be computed. -/
def propertyName : Pattern Rule :=
  any [memberName, lexeme Lexeme.string, lexeme Lexeme.number,
    all [sign "[", rule (.expression .enclosed), sign "]"]]

/-- Expressions in parentheses. -/
def parenthesized : Pattern Rule :=
  all [sign "(", rule (.expressions .enclosed), optional (typeMark .enclosed), sign ")"]

/-- Operands that stand for a place or for a value made of places. -/
def placeOperand : Pattern Rule :=
  any [lexeme (Lexeme.wordExcept expressionWords), parenthesized, object, array]

/-- A private name, which is only asked whether it is in a value. -/
def privateName : Pattern Rule :=
  all [sign "#", scan Lexeme.word,
    scan (Scanner.guard fun c => (Lexeme.keyword "in" (Lexeme.gap c)).isSome)]

/-- The first name of a type parameter that is declared constant, where it could be taken for a tag. -/
def constantParameter (c : Cursor) : Option Cursor :=
  (Scanner.text "<" (Lexeme.wideGap c)).bind fun d => Lexeme.keyword "const" (Lexeme.wideGap d)

/-- Operands that stand for a value. -/
def valueOperand : Pattern Rule :=
  any [seq (scan (Scanner.without constantParameter)) (rule .element),
    lexeme Lexeme.number,
    lexeme Lexeme.string,
    seq (scan fun c => some (Lexeme.wideGap c)) (rule .template),
    lexeme Lexeme.regex,
    anyKeyword ["true", "false", "null"],
    functionExpression,
    classFrom (optional name),
    seq (keyword "import") (or (rule .arguments) (seq (sign ".") name)),
    all [keyword "new", sign ".", name],
    privateName]

/-- An operand with its accesses and what goes on after it. -/
def operand (e : Ending) : Pattern Rule :=
  or
    (all [placeOperand, accesses e, remainder e true])
    (seq valueOperand (or
      (all [goesOn e, access, accesses e, remainder e true])
      (remainder e false)))

/-- A function that is written with an arrow. -/
def arrowFunction (e : Ending) : Pattern Rule :=
  all [optional (keyword "async"),
    or (rule .callSignature) (lexeme (Lexeme.wordExcept expressionWords)),
    sign "=>", or (rule .block) (rule (.expression e))]

/-- A sign or a word in front of an operand. -/
def prefixSign : Pattern Rule :=
  any [sign "!", sign "~", sign "++", sign "--", sign "+", sign "-",
    anyKeyword ["typeof", "void", "delete", "await", "new"]]

/-- An assignment to the parts of a value, with values for the parts that are missing. -/
def partsAssignment (e : Ending) : Pattern Rule :=
  all [scan (Scanner.guard fun c =>
      match (Lexeme.wideGap c).rest with
      | '\x7b' :: _ => true
      | '[' :: _ => true
      | _ => false),
    rule .bindingTarget, sign "=", rule (.expression e)]

/-- An expression. -/
def expression (e : Ending) : Pattern Rule :=
  any [arrowFunction e,
    seq prefixSign (rule (.expression e)),
    all [keyword "yield", optional (seq (goesOn e)
      (seq (optional (sign "*")) (rule (.expression e))))],
    partsAssignment e,
    rule (.operand e)]

/-- Expressions with commas between them. -/
def expressions (e : Ending) : Pattern Rule :=
  commaList (rule (.expression e))

end InPlace.Tsx.Grammar

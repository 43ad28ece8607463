import InPlace.Tsx.Grammar.Expression

/-!
# Statements

Statements, declarations, classes and modules.
-/

namespace InPlace.Tsx.Grammar

open Pattern

/-- Words that are no names where a statement begins. -/
def statementWords : List String :=
  ["if", "for", "while", "do", "switch", "try", "with", "return", "throw", "break", "continue",
    "debugger", "var", "const", "export"]

/-- What stands in front of a class or a member, behind its sign. -/
def decorator : Pattern Rule :=
  seq (sign "@") (or parenthesized (all [name, many (seq (sign ".") name),
    optional (rule .typeArguments), optional (rule .arguments)]))

/-- Statements in braces. -/
def block : Pattern Rule :=
  all [sign "\x7b", manyMax (rule .statement), sign "\x7d"]

/-- An expression in parentheses, as conditions have it. -/
def condition : Pattern Rule :=
  parenthesized

/-- `= value` -/
def initialValue (e : Ending) : Pattern Rule :=
  seq (sign "=") (rule (.expression e))

/-- A variable with its type and value, up to the end of its declaration. -/
def declared (e : Ending) : Pattern Rule :=
  all [rule .bindingTarget, optional (sign "!"), optional (typeMark .type), optional (initialValue e)]

/-- Variables up to the end of their declaration. -/
def variableList : Pattern Rule :=
  all [anyKeyword ["let", "const", "var"], commaList (declared .expression),
    or (semicolon false) (semicolon true)]

/-- A function, or its head without a body. -/
def functionDeclaration : Pattern Rule :=
  all [optional (keyword "async"), keyword "function", optional (sign "*"), name,
    rule .callSignature,
    any [rule .block, sign ";", scan (Scanner.guard (Lexeme.endsLine false true))]]

/-- The declaration of an enumeration. -/
def enumDeclaration : Pattern Rule :=
  all [optional (keyword "const"), keyword "enum", name, sign "\x7b",
    optional (commaListOpen (seq (rule .propertyName) (optional (initialValue .enclosed)))),
    sign "\x7d"]

/-- The declaration of an interface. -/
def interfaceDeclaration : Pattern Rule :=
  all [keyword "interface", name, optional (rule .typeParameters),
    optional (seq (keyword "extends") (commaList (rule (.type .enclosed)))), rule .objectType]

/-- The declaration of a type by another. -/
def typeDeclaration : Pattern Rule :=
  all [keyword "type", name, optional (rule .typeParameters), sign "=", rule (.type .type),
    semicolon false]

/-- The declaration of a module or a namespace. -/
def moduleDeclaration : Pattern Rule :=
  all [anyKeyword ["module", "namespace"],
    or (lexeme Lexeme.string) (seq name (many (seq (sign ".") name))),
    or (rule .block) (semicolon false)]

/-- A shorter name for one in a namespace. -/
def importAlias : Pattern Rule :=
  all [keyword "import", name, sign "=", name, many (seq (sign ".") name), semicolon false]

/-- A declaration of what is elsewhere. -/
def ambientDeclaration : Pattern Rule :=
  seq (keyword "declare") (or (rule .declaration) (seq (keyword "global") (rule .block)))

/-- Any declaration. -/
def declaration : Pattern Rule :=
  any [variableList, functionDeclaration, classFrom name, enumDeclaration,
    interfaceDeclaration, typeDeclaration, moduleDeclaration, importAlias, ambientDeclaration]

/-! ## Imports and exports -/

/-- A name that a module exports, which may be a text. -/
def moduleName : Pattern Rule :=
  or (lexeme Lexeme.string) name

/-- `name as name`, for a type or a value. -/
def specifier : Pattern Rule :=
  seq (or (seq (anyKeyword ["type", "typeof"]) moduleName) moduleName)
    (optional (seq (keyword "as") moduleName))

/-- The names that are taken from a module. -/
def specifiers : Pattern Rule :=
  all [sign "\x7b", optional (commaListOpen specifier), sign "\x7d"]

/-- All names of a module under one. -/
def allNames : Pattern Rule :=
  all [sign "*", keyword "as", moduleName]

/-- The module that names are taken from. -/
def fromClause : Pattern Rule :=
  all [keyword "from", lexeme Lexeme.string]

/-- An import in any of its forms. -/
def importStatement : Pattern Rule :=
  all [keyword "import", optional (anyKeyword ["type", "typeof"]),
    any [
      seq (any [specifiers, allNames,
        seq name (optional (seq (sign ",") (or specifiers allNames)))]) fromClause,
      all [name, sign "=", keyword "require", sign "(", lexeme Lexeme.string, sign ")"],
      lexeme Lexeme.string],
    optional (seq (or (keyword "with") (keyword "assert")) object),
    semicolon false]

/-- A function or class with a name, which is declared where a statement begins with it. -/
def namedDeclaration (c : Cursor) : Option Cursor :=
  let next := fun (s : Scanner) (c : Cursor) => s (Lexeme.wideGap c)
  let named := fun (w : String) (c : Cursor) =>
    (next (Lexeme.keyword w) c).bind (next (Lexeme.wordExcept ["extends", "implements"]))
  Scanner.any [named "function", named "class",
    fun c => (next (Lexeme.keyword "async") c).bind (named "function")] c

/-- Expressions as a statement. -/
def valueStatement : Pattern Rule :=
  all [scan (Scanner.without namedDeclaration), rule (.expressions .expression), semicolon true]

/-- An export in any of its forms. -/
def exportStatement : Pattern Rule :=
  all [many (rule .decorator), keyword "export", any [
    all [optional (keyword "type"), or (seq (sign "*") (optional (seq (keyword "as") moduleName)))
      specifiers, fromClause, optional (seq (or (keyword "with") (keyword "assert")) object),
      semicolon false],
    all [optional (keyword "type"), specifiers, semicolon false],
    rule .declaration,
    seq (keyword "default") (or (rule .declaration) valueStatement),
    all [sign "=", rule (.expression .expression), semicolon true],
    all [keyword "as", keyword "namespace", name, semicolon false]]]

/-! ## Statements proper -/

/-- A choice between two statements. -/
def ifStatement : Pattern Rule :=
  all [keyword "if", condition, rule .statement, optional (seq (keyword "else") (rule .statement))]

/-- A choice between cases. -/
def switchStatement : Pattern Rule :=
  all [keyword "switch", condition, sign "\x7b",
    manyMax (seq (or (all [keyword "case", rule (.expressions .enclosed), sign ":"])
      (seq (keyword "default") (sign ":"))) (manyMax (rule .statement))),
    sign "\x7d"]

/-- A loop that counts, or one over what is in a collection. -/
def forStatement : Pattern Rule :=
  let part := seq (optional (rule (.expressions .enclosed))) (sign ";")
  all [keyword "for", optional (keyword "await"), sign "(",
    or (all [or variableList part, part, optional (rule (.expressions .enclosed))])
      (all [or (seq (anyKeyword ["let", "const", "var"]) (seq (rule .bindingTarget)
            (optional (initialValue .enclosed))))
          (or (rule .bindingTarget) (seq placeOperand (accesses .enclosed))),
        or (keyword "in") (keyword "of"), rule (.expressions .enclosed)]),
    sign ")", rule .statement]

/-- A block, with what is done when it fails and what is done in the end. -/
def tryStatement : Pattern Rule :=
  all [keyword "try", rule .block,
    optional (all [keyword "catch",
      optional (all [sign "(", rule .bindingTarget, optional (typeMark .enclosed), sign ")"]),
      rule .block]),
    optional (seq (keyword "finally") (rule .block))]

/-- A jump with its label or value. -/
def jump : Pattern Rule :=
  any [all [anyKeyword ["break", "continue"], optional (seq (goesOn .type) name), semicolon false],
    all [keyword "return",
      or (all [goesOn .expression, rule (.expressions .expression), semicolon true])
        (semicolon true)],
    all [keyword "throw", rule (.expressions .expression), semicolon true]]

/-- Any statement. -/
def statement : Pattern Rule :=
  any [importStatement, exportStatement, rule .declaration, rule .block, ifStatement, switchStatement,
    forStatement,
    all [keyword "while", condition, rule .statement],
    all [keyword "do", rule .statement, keyword "while", condition, optional (semicolon true)],
    all [keyword "with", condition, rule .statement],
    tryStatement, jump,
    seq (keyword "debugger") (semicolon false),
    sign ";",
    all [lexeme (Lexeme.wordExcept statementWords), sign ":", rule .statement],
    all [scan (Scanner.without fun c => (Lexeme.word (Lexeme.wideGap c)).bind fun d =>
        if statementWords.contains (Lexeme.between (Lexeme.wideGap c) d) then some d else none),
      valueStatement]]

/-! ## Classes -/

/-- A field with its type and value. -/
def field : Pattern Rule :=
  all [many (rule .decorator), memberHead, optional (or (sign "?") (sign "!")),
    or (all [optional (typeMark .type), initialValue .expression, or (semicolon true) (sign ",")])
      (all [optional (typeMark .type), or (semicolon false) (sign ",")])]

/-- A member of a class: a method, its signature, a field or a block. -/
def classMember : Pattern Rule :=
  any [
    all [many (rule .decorator), memberHead, optional (sign "?"), rule .callSignature, rule .block,
      optional (semicolon true)],
    all [many (rule .decorator), memberHead, optional (sign "?"), rule .callSignature,
      any [sign ";", sign ",", scan (Scanner.guard (Lexeme.endsLine false true))]],
    seq (keyword "static") (rule .block),
    seq indexSignature (or (semicolon false) (sign ",")),
    field,
    sign ";"]

/-- The members of a class. -/
def classBody : Pattern Rule :=
  all [sign "\x7b", manyMax (rule .classMember), sign "\x7d"]

/-- A first line that names an interpreter, and statements. -/
def program : Pattern Rule :=
  seq (optional (lexeme (Scanner.andThen (Scanner.text "#!")
    (Scanner.many (Scanner.char (· != '\n')))))) (manyMax (rule .statement))

end InPlace.Tsx.Grammar

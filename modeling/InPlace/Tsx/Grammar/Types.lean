import InPlace.Tsx.Grammar.Rule

/-!
# Types

Type expressions, type parameters and arguments, object types, and the signatures of functions.
-/

namespace InPlace.Tsx.Grammar

open Pattern

/-- `: type` -/
def typeMark (e : Ending) : Pattern Rule :=
  seq (sign ":") (rule (.type e))

/-- A type, or a statement on a parameter, as the result of a function. -/
def resultType (e : Ending) : Pattern Rule :=
  any [all [keyword "asserts", name, keyword "is", rule (.type e)],
    all [name, keyword "is", rule (.type e)],
    rule (.type e),
    seq (keyword "asserts") name]

/-- A parameter of a type, with a bound and a default. -/
def typeParameter : Pattern Rule :=
  all [many (anyKeyword ["const", "in", "out"]), name,
    optional (seq (or (keyword "extends") (sign ":")) (rule (.type .enclosed))),
    optional (seq (sign "=") (rule (.type .enclosed)))]

/-- Parameters of a type. -/
def typeParameters : Pattern Rule :=
  all [sign "<", commaListOpen typeParameter, sign ">"]

/-- Arguments of a type. -/
def typeArguments : Pattern Rule :=
  all [sign "<", commaListOpen (rule (.type .enclosed)), sign ">"]

/-- What `typeof` asks the type of. -/
def typeQuery : Pattern Rule :=
  all [keyword "typeof",
    or (seq (keyword "import") (rule .arguments)) name,
    many (any [seq (sign ".") memberName,
      all [operatorSign "[", rule (.type .enclosed), sign "]"]]),
    optional (rule .typeArguments)]

/-- A place of a tuple, which may have a name. -/
def tupleMember : Pattern Rule :=
  any [all [optional (sign "..."), name, optional (sign "?"), typeMark .enclosed],
    all [optional (sign "..."), rule (.type .enclosed), optional (sign "?")]]

/-- A template of types. -/
def templateType : Pattern Rule :=
  all [sign "\x60",
    manyMax (any [scan Lexeme.templateText, scan Lexeme.escape,
      all [scan (Scanner.text "$\x7b"), rule (.type .enclosed), sign "\x7d"]]),
    scan (Scanner.text "\x60")]

/-- Words that are no names where a type begins. -/
def typeWords : List String :=
  ["typeof", "new", "import", "function", "keyof", "readonly", "infer"]

/-- A type without operators. -/
def typePrimary : Pattern Rule :=
  any [all [sign "(", rule (.type .enclosed), sign ")"],
    rule .objectType,
    all [sign "[", commaPlaces tupleMember, sign "]"],
    templateType,
    lexeme Lexeme.string,
    seq (optional (sign "-")) (lexeme Lexeme.number),
    typeQuery,
    all [keyword "import", rule .arguments, many (seq (sign ".") name),
      optional (rule .typeArguments)],
    all [lexeme (Lexeme.wordExcept typeWords),
      many (seq (sign ".") name), optional (rule .typeArguments)],
    sign "*"]

/-- A type without unions and conditions after it. -/
def typeOperand (e : Ending) : Pattern Rule :=
  seq (seq (many (or (sign "|") (sign "&"))) (many (anyKeyword ["keyof", "readonly", "unique"])))
    (any [
      all [optional (rule .typeParameters), rule .parameters, sign "=>", resultType e],
      all [optional (keyword "abstract"), keyword "new", optional (rule .typeParameters),
        rule .parameters, sign "=>", rule (.type e)],
      all [keyword "infer", name, optional (seq (keyword "extends") (rule (.typeOperand e)))],
      seq typePrimary (many (all [goesOn e, operatorSign "[", optional (rule (.type .enclosed)),
        sign "]"]))])

/-- A type. -/
def type (e : Ending) : Pattern Rule :=
  seq (rule (.typeOperand e))
    (or (seq (goesOn e) (any [
        seq (or (operatorSign "|") (operatorSign "&")) (rule (.type e)),
        all [keyword "extends", rule (.type .enclosed), sign "?", rule (.type .enclosed), sign ":",
          rule (.type e)]]))
      empty)

/-- Words that may stand before a member or a parameter. -/
def modifiers : Pattern Rule :=
  many (anyKeyword ["public", "private", "protected", "static", "override", "readonly", "abstract",
    "declare", "accessor", "async", "get", "set"])

/-- The name of a member with what may stand before it, a star for generators included. -/
def memberHead : Pattern Rule :=
  all [modifiers, optional (sign "*"), rule .propertyName]

/-- `[name: type]` or `[name in type as type]`, with the marks of a mapped type. -/
def indexSignature : Pattern Rule :=
  all [modifiers, optional (all [or (sign "-") (sign "+"), keyword "readonly"]), sign "[", name,
    or (typeMark .enclosed)
      (all [keyword "in", rule (.type .enclosed),
        optional (seq (keyword "as") (rule (.type .enclosed)))]),
    sign "]",
    optional (seq (optional (any [sign "?", sign "-?", sign "+?"])) (typeMark .type))]

/-- A member of an object type. -/
def typeMember : Pattern Rule :=
  any [
    all [optional (keyword "abstract"), keyword "new", rule .callSignature],
    indexSignature,
    all [memberHead, optional (sign "?"), rule .callSignature],
    all [memberHead, optional (sign "?"), optional (typeMark .type)],
    rule .callSignature]

/-- `{ members }`, the members separated by commas, semicolons or line ends. -/
def objectType : Pattern Rule :=
  let separator := or (sign ",") (semicolon false)
  or
    (all [sign "\x7b", optional (or (sign ",") (sign ";")),
      optional (separated separator typeMember), optional separator, sign "\x7d"])
    (all [sign "\x7b|", optional (separated separator typeMember), optional separator,
      sign "|\x7d"])

/-- A name, an object or an array of names. -/
def bindingTarget : Pattern Rule :=
  let initial := optional (seq (sign "=") (rule (.expression .enclosed)))
  let rest := seq (sign "...") (rule .bindingTarget)
  any [
    name,
    all [sign "\x7b",
      commaPlaces (any [rest, all [rule .propertyName, sign ":", rule .bindingTarget, initial],
        seq name initial]),
      sign "\x7d"],
    all [sign "[", commaPlaces (or rest (seq (rule .bindingTarget) initial)), sign "]"]]

/-- The parameters of a function, in parentheses. -/
def parameters : Pattern Rule :=
  let parameter := all [many (rule .decorator),
    many (anyKeyword ["public", "private", "protected", "override", "readonly"]),
    optional (sign "..."), rule .bindingTarget, optional (sign "?"), optional (typeMark .enclosed),
    optional (seq (sign "=") (rule (.expression .enclosed)))]
  all [sign "(", optional (commaListOpen parameter), sign ")"]

/-- Type parameters, parameters and result of a function. -/
def callSignature : Pattern Rule :=
  all [optional (rule .typeParameters), rule .parameters,
    optional (seq (sign ":") (resultType .type))]

end InPlace.Tsx.Grammar

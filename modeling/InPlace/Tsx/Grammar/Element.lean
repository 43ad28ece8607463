import InPlace.Tsx.Grammar.Rule

/-!
# Elements

`<name attributes>children</name>` and `<name attributes/>`, with or without a name. The closing name is
not compared with the opening one. A tag is a node with its name, its type arguments and its attributes
as children.
-/

namespace InPlace.Tsx.Grammar

open Pattern

/-- A name that may have a hyphen. -/
def hyphenName : Pattern Rule :=
  or (lexeme Lexeme.hyphenated) name

/-- A name with a namespace in front. -/
def namespaceName : Pattern Rule :=
  all [hyphenName, sign ":", hyphenName]

/-- A dotted name of at least two parts. -/
def dottedName : Pattern Rule :=
  all [name, sign ".", name, many (seq (sign ".") name)]

/-- The name of a tag, its type arguments and its attributes. -/
def elementHead : Pattern Rule :=
  seq
    (any [
      seq (or (nodeAs .name .memberExpression dottedName) (nodeAs .name .identifier name))
        (optional (nodeAs .typeArguments .typeArguments (rule .typeArguments))),
      nodeAs .name .namespaceName namespaceName,
      nodeAs .name .jsxIdentifier (lexeme Lexeme.hyphenated)])
    (manyMax (rule .tagAttribute))

/-- An element. -/
def element : Pattern Rule :=
  all [start, sign "<", optional (rule .elementHead),
    or (seq (sign "/>") (finish .selfClosingElement none))
      (all [sign ">", finish .openingElement none, manyMax (rule .elementChild),
        sign "</", optional (any [dottedName, namespaceName, hyphenName]), sign ">"])]

/-- The value of an attribute: a text, an insertion or an element. -/
def attributeValue : Pattern Rule :=
  any [lexeme (Lexeme.markupString '"'), lexeme (Lexeme.markupString '\''), rule .insertion,
    rule .element]

/-- An attribute, or an expression in braces in the place of one. -/
def tagAttribute : Pattern Rule :=
  or (node .tagAttribute (seq (or namespaceName hyphenName)
      (optional (seq (sign "=") attributeValue))))
    (rule .insertion)

/-- An expression, a list of expressions, a spread or nothing, in braces. -/
def insertion : Pattern Rule :=
  all [sign "\x7b",
    optional (or (seq (sign "...") (rule (.expression .enclosed))) (rule (.expressions .enclosed))),
    sign "\x7d"]

/-- What stands between the tags of an element. -/
def elementChild : Pattern Rule :=
  any [scan Lexeme.markupText, scan Lexeme.characterReference, rule .insertion,
    seq (scan (Scanner.without (Scanner.text "</"))) (rule .element)]

end InPlace.Tsx.Grammar

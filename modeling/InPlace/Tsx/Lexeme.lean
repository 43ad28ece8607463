import InPlace.Tsx.Scanner

/-!
# Lexemes

The words, literals, comments and pieces of markup text of a TSX source as scanners, and the places
where the end of a line stands for a semicolon (`endsLine`).
-/

namespace InPlace.Tsx

open InPlace.Text (isBlank)

namespace Lexeme

open Scanner

/-- White space between lexemes. -/
def isSpace (c : Char) : Bool :=
  isBlank c || c == '\uFEFF' || c == '\u2060' || c == '\u200B'

/-- The characters that separate words. -/
def isMark (c : Char) : Bool :=
  ":;\x60\"'@#.,|^&<=>+-*/\\%?!~()[]\x7b\x7d".toList.contains c

/-- A character of a word: anything but controls, white space and separating characters. -/
def isWordPart (c : Char) : Bool :=
  0x20 ≤ c.toNat && !isSpace c && !isMark c

/-- Whether a character is a hexadecimal digit. -/
def isHex (c : Char) : Bool :=
  c.isDigit || ('a' ≤ c && c ≤ 'f') || ('A' ≤ c && c ≤ 'F')

/-- Whether a character is an octal digit. -/
def isOctal (c : Char) : Bool :=
  '0' ≤ c && c ≤ '7'

/-- Whether a character ends a line. -/
def isNewline (c : Char) : Bool :=
  c == '\n' || c == '\r' || c == '\u2028' || c == '\u2029'

/-! ## White space and comments -/

/-- Everything up to a slash that follows a star. -/
def toCommentEnd : Nat → List Char → Option Cursor
  | _, [] => none
  | o, '*' :: '/' :: cs => some ⟨o + 2, cs⟩
  | o, c :: cs => toCommentEnd (o + c.utf8Size) cs

/-- A comment to the end of the line or to its closing sign. -/
def comment : Scanner :=
  any [all [text "//", many (char fun c => !isNewline c)],
    andThen (text "/*") fun c => toCommentEnd c.offset c.rest]

/-- A markup comment, which reaches to the end of its line. -/
def markupComment : Scanner :=
  andThen (any [text "<!--", text "-->"])
    (many (char fun c => !(c == '\n' || c == '\u2028' || c == '\u2029')))

/-- One or more spaces. -/
def space : Scanner :=
  many1 (char isSpace)

/-- White space and comments before an operator. -/
def gap (c : Cursor) : Cursor :=
  ((many (any [space, comment])) c).getD c

/-- White space and comments, markup comments among them, before any other lexeme. -/
def wideGap (c : Cursor) : Cursor :=
  ((many (any [space, comment, markupComment])) c).getD c

/-! ## Words -/

/-- A character by its number. -/
def unicodeEscape : Scanner :=
  any [all [text "\\u\x7b", many1 (char isHex), text "\x7d"],
    all [text "\\u", char isHex, char isHex, char isHex, char isHex]]

/-- A word: an identifier or a keyword. -/
def word : Scanner :=
  andThen (any [char fun c => isWordPart c && !c.isDigit, unicodeEscape])
    (many (any [char isWordPart, unicodeEscape]))

/-- The text between two cursors, the second of which was reached from the first. -/
def between (c d : Cursor) : String :=
  String.ofList (c.upTo d)

/-- The given word and no longer one. -/
def keyword (w : String) : Scanner := fun c =>
  match word c with
  | some d => if between c d == w then some d else none
  | none => none

/-- Any word but the listed ones. -/
def wordExcept (reserved : List String) : Scanner := fun c =>
  match word c with
  | some d => if reserved.contains (between c d) then none else some d
  | none => none

/-- A name with a hyphen, as tags and attributes have it. -/
def hyphenated : Scanner :=
  let letter := fun c : Char => c.isAlpha || c == '_' || c == '$'
  all [char letter, many (char fun c => letter c || c.isDigit), text "-",
    many (char fun c => letter c || c.isDigit || c == '-')]

/-! ## Literals -/

/-- Digits of a kind, with single underscores between them. -/
def digitsOf (p : Char → Bool) : Scanner :=
  andThen (char p) (many (andThen (optional (text "_")) (char p)))

/-- A number, taken as far as it goes. -/
def number : Scanner :=
  let digits := digitsOf Char.isDigit
  let power := all [any [text "e", text "E"], optional (any [text "-", text "+"]), digits]
  let based := fun (low high : String) (p : Char → Bool) =>
    andThen (any [text low, text high]) (digitsOf p)
  let hex := based "0x" "0X" isHex
  let octal := based "0o" "0O" isOctal
  let binary := based "0b" "0B" fun c => c == '0' || c == '1'
  furthest [hex, octal, binary,
    andThen (any [hex, octal, binary, digits]) (text "n"),
    all [digits, text ".", optional digits, optional power],
    all [text ".", digits, optional power],
    all [digits, power],
    digits]

/-- A backslash and what it stands for. -/
def escape : Scanner :=
  any [unicodeEscape,
    all [text "\\x", char isHex, char isHex],
    andThen (text "\\") (many1UpTo 3 (char isOctal)),
    text "\\\r\n",
    andThen (text "\\") (char fun c => !(c == 'x' || c == 'u' || isOctal c))]

/-- A text between two quotes of a kind. -/
def quoted (quote : Char) : Scanner :=
  all [char (· == quote),
    many (any [char fun c => !(c == quote || c == '\\' || c == '\n' || c == '\r'), escape]),
    char (· == quote)]

/-- A text in quotes of either kind. -/
def string : Scanner :=
  any [quoted '"', quoted '\'']

/-- A regular expression with its flags. -/
def regex : Scanner :=
  let escaped := andThen (text "\\") (char (· != '\n'))
  let set := all [text "[", many (any [escaped, char fun c => !(c == ']' || c == '\n' || c == '\\')]),
    text "]"]
  all [text "/", without (any [text "/", text "*"]),
    many1 (any [set, escaped, char fun c => !(c == '/' || c == '\\' || c == '[' || c == '\n')]),
    text "/", many (char Char.isLower)]

/-- The plain characters of a template, at least one. -/
def templateText : Scanner :=
  many1 (any [char fun c => !(c == '\x60' || c == '\\' || c == '$'),
    andThen (text "$") (without (text "\x7b"))])

/-! ## Markup -/

/-- A character reference, named or numbered. -/
def characterReference : Scanner :=
  all [text "&",
    any [all [text "#", any [text "x", text "X"], many1UpTo 6 (char isHex)],
      all [text "#", many1UpTo 5 (char Char.isDigit)],
      many1UpTo 30 (char Char.isAlpha)],
    text ";"]

/-- An attribute value in quotes. An ampersand before a letter or `#` begins a reference; before
anything else, the quote included, it is text together with what follows it. -/
def markupString (quote : Char) : Scanner :=
  all [char (· == quote),
    many (any [char fun c => !(c == quote || c == '&'),
      andThen (text "&") (char fun c => !(c == '#' || c.isAlpha)),
      characterReference]),
    char (· == quote)]

/-- Text among the children of an element. -/
def markupText : Scanner :=
  many1 (char fun c => !(c == '<' || c == '>' || c == '\x7b' || c == '\x7d' || c == '&'))

/-! ## Line ends that stand for semicolons -/

/-- The characters after white space and comments, and whether a line ended among them. -/
def pastLine (c : Cursor) : Bool × List Char :=
  let d := gap c
  ((c.upTo d).contains '\n', d.rest)

/-- Whether a semicolon is understood at the cursor: at the end of the source, before a closing brace,
and at the end of a line unless the next line goes on with an operator. Inside an expression
(`operators`) a line that starts with a bracket goes on as well, and after the head of a function
(`signature`) one that starts with its body. -/
def endsLine (operators signature : Bool) (c : Cursor) : Bool :=
  match pastLine c with
  | (_, []) => true
  | (crossed, d :: ds) =>
    -- a brace before a colon ends a pattern with a type, not a statement
    if d == '\x7d' then
      match ds.dropWhile Char.isWhitespace with
      | ':' :: _ => operators
      | _ => true
    else if !crossed then false
    else match d, ds with
      -- two signs begin a statement, a single one goes on
      | '+', e :: _ => e == '+'
      | '-', e :: _ => e == '-'
      | '!', e :: _ => e != '='
      -- so do `in` and `instanceof`, but not longer words
      | 'i', 'n' :: 's' :: 't' :: 'a' :: 'n' :: 'c' :: 'e' :: 'o' :: 'f' :: e :: _ => e.isAlpha
      | 'i', 'n' :: e :: _ => e.isAlpha
      | 'i', ['n'] => false
      | '(', _ => !operators
      | '[', _ => !operators
      | '\x7b', _ => !signature
      | _, _ => !"\x60,.;*%><=?^|&/:".toList.contains d

end Lexeme

end InPlace.Tsx

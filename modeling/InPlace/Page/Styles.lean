import InPlace.Text.Blank
import InPlace.Text.Split
import InPlace.Page.Table

/-!
# Styles

Names of style properties and texts of inline styles. In a script a property is called `fontSize`, in a
style `font-size`; custom properties (`--name`) are called the same in both. An inline style is a text of
declarations `name: value;`.
-/

namespace InPlace.Styles

/-- The letters of a property name in a style: a capital becomes a hyphen and a small letter. -/
def hyphenate (c : Char) : List Char :=
  if c.isUpper then ['-', c.toLower] else [c]

/-- The name in a style of a property named as in a script. -/
def propertyName (property : String) : String :=
  if "--".toList.isPrefixOf property.toList then property
  else String.ofList (property.toList.flatMap hyphenate)

/-- The declarations as a text. -/
def text (ds : Table) : String :=
  " ".intercalate (ds.map fun d => d.1 ++ ": " ++ d.2 ++ ";")

/-- The declaration in a text: what is before and after its first colon. -/
def declaration? (cs : List Char) : Option (String × String) :=
  match cs.dropWhile (· != ':') with
  | [] => none
  | _ :: value =>
    let name := Text.trim (String.ofList (cs.takeWhile (· != ':')))
    if name.isEmpty then none else some (name, Text.trim (String.ofList value))

/-- The declarations in a text. What is not a declaration is left out. -/
def ofText (s : String) : Table :=
  (Text.splitAt ';' s.toList).filterMap declaration?

end InPlace.Styles

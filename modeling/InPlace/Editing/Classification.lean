import InPlace.Page.Basic
import InPlace.Text.Blank

/-!
# What may be edited

Preformatted content is not edited at all, because editing would change its white space. Of the other
elements those with a tag for running text may have their text edited, and all may have their styles
edited.

Main statement: `classify_eq_none_iff` (nothing may be edited exactly in preformatted content).
-/

namespace InPlace

/-- A name in small letters; letters outside ASCII stay as they are. -/
def lowerCase (s : String) : String :=
  String.ofList (s.toList.map Char.toLower)

/-- What may be edited of an element. -/
structure Editability where
  text : Bool
  styles : Bool
  deriving DecidableEq, Repr, Inhabited

namespace Editability

/-- Nothing may be edited. -/
def none : Editability :=
  ⟨false, false⟩

/-- Whether anything about an element can be edited. -/
def isEditable (e : Editability) : Bool :=
  e.text || e.styles

/-- Tags whose content is code or keeps its white space. -/
def preformattedTags : List String :=
  ["pre", "code", "textarea", "kbd", "samp"]

/-- Values of `white-space` that keep the white space of the source. -/
def preservedWhiteSpace : List String :=
  ["pre", "pre-wrap", "pre-line", "break-spaces"]

/-- Tags of running text. -/
def textTags : List String :=
  ["h1", "h2", "h3", "h4", "h5", "h6", "p", "span", "a", "button", "label", "li", "td", "th", "dt",
    "dd", "strong", "em", "b", "i", "u", "s", "small", "mark", "blockquote", "q", "cite",
    "figcaption", "caption", "legend", "summary", "abbr", "sub", "sup", "del", "ins", "time"]

/-- Whether elements with a tag are preformatted whatever their styles are. -/
def isPreformattedTag (tag : String) : Bool :=
  preformattedTags.contains (lowerCase tag)

/-- Whether a value of `white-space` keeps white space. -/
def preservesWhiteSpace (whiteSpace : String) : Bool :=
  preservedWhiteSpace.contains (Text.trim whiteSpace)

/-- What may be edited of an element with this tag and this value of `white-space`. -/
def classify (tag whiteSpace : String) (preformatted : Bool) : Editability :=
  if preformatted || preservesWhiteSpace whiteSpace then none
  else ⟨textTags.contains (lowerCase tag), true⟩

/-- Nothing may be edited exactly in preformatted content. -/
theorem classify_eq_none_iff {tag whiteSpace : String} {preformatted : Bool} :
    classify tag whiteSpace preformatted = none ↔
      preformatted = true ∨ preservesWhiteSpace whiteSpace = true := by
  rw [← Bool.or_eq_true]
  cases h : preformatted || preservesWhiteSpace whiteSpace <;> simp [classify, h, none]

variable {P N : Type} [Page P N]

/-- The value of `white-space` for an element. -/
def whiteSpaceOf (page : P) (n : N) : Option String :=
  Page.computedStyle? page n "whiteSpace"

/-- Whether the content of an element is preformatted. -/
def isPreformatted (page : P) (n : N) : Bool :=
  isPreformattedTag (Page.tagName page n) || (whiteSpaceOf page n).any preservesWhiteSpace

/-- What may be edited of an element. -/
def ofElement (page : P) (n : N) : Editability :=
  let tag := Page.tagName page n
  classify tag ((whiteSpaceOf page n).getD "normal") (isPreformattedTag tag)

/-- Nothing may be edited of an element exactly if its content is preformatted. -/
theorem ofElement_eq_none_iff {page : P} {n : N} :
    ofElement page n = none ↔ isPreformatted page n = true := by
  rw [ofElement, classify_eq_none_iff, isPreformatted, Bool.or_eq_true]
  cases whiteSpaceOf page n
  · have : preservesWhiteSpace "normal" = false := by decide +kernel
    simp [this]
  · simp

/-- Whether there is text directly inside an element that is not blank. -/
def hasDirectText (page : P) (n : N) : Bool :=
  (Page.childTexts page n).any fun t => !(Text.trim t).isEmpty

/-- The text of an element: as it stands where it is preformatted, otherwise as it is shown. -/
def extractText (page : P) (n : N) (preformatted : Bool) : String :=
  if preformatted then Page.textContent page n else Text.trim (Page.renderedText page n)

end Editability

end InPlace

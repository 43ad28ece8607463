/-!
# Overlay

Attributes and style sheets by which the editor shows what is selected, hovered and edited.
-/

namespace InPlace.Overlay

/-- Marks the element that is selected. -/
def selectedAttribute : String := "data-sg-selected"

/-- Marks the element whose text is edited. -/
def editingAttribute : String := "data-sg-editing"

/-- Marks the element under the pointer. -/
def hoveredAttribute : String := "data-sg-hovered"

/-- Marks a hovered element that is as wide as the viewport. -/
def fullWidthAttribute : String := "data-sg-full-width"

/-- Lets the text of an element be edited. -/
def editableAttribute : String := "contenteditable"

/-- Marks the body while the host saves. -/
def savingAttribute : String := "data-sg-saving"

/-- The id of the style sheet for the marks. -/
def stylesId : String := "sg-visual-editor-styles"

/-- The id of the style sheet for scrolling. -/
def scrollId : String := "sg-scroll-override"

/-- The style sheet by which the page scrolls at once. -/
def scrollStyles : String := "* \x7b scroll-behavior: auto !important; \x7d"

/-- A rule of a style sheet. -/
def rule (selector : String) (declarations : List String) : String :=
  selector ++ " \x7b\n" ++ String.join (declarations.map fun d => "  " ++ d ++ " !important;\n")
    ++ "\x7d\n"

/-- The outline of an element that is selected or under the pointer. -/
def dashed : List String :=
  ["outline: 2px dashed rgba(93,208,220)", "outline-offset: 2px", "cursor: pointer",
    "transition: outline 0.15s ease"]

/-- The style sheet that makes the marks visible. -/
def styles : String :=
  "\n" ++ "\n".intercalate
    [rule "body:not([data-sg-saving]) [data-sg-hovered]:not([data-sg-selected])" dashed,
      rule "body:not([data-sg-saving]) [data-sg-hovered][data-sg-full-width]:not([data-sg-selected])"
        ["outline-offset: -2px"],
      rule "[data-sg-selected]" dashed,
      rule "[data-sg-editing]"
        ["cursor: text", "outline: none", "box-shadow: 0 0 0 2px rgba(93,208,220)"],
      rule "[data-sg-selected][data-sg-editing]" ["outline: none"],
      rule "[contenteditable=\"true\"]" ["outline: none"]]

end InPlace.Overlay

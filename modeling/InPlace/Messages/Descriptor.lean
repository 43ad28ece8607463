import InPlace.Identity
import InPlace.Json.Record

/-!
# Descriptors

What the host is told about an element: where it was written, what it is called, its text, what may be
edited, and on request its styles and its place on the screen.
-/

namespace InPlace

/-- The identity in a message. -/
def Identity.ofJson? (j : Json) : Option Identity := do
  let fields ← Json.record? ["id", "filePath", "line", "column"] 4 j
  let raw ← Json.required? Json.str? "id" fields
  let path ← Json.required? Json.str? "filePath" fields
  let line ← Json.required? (Json.natBelow? UInt32.size) "line" fields
  let column ← Json.required? (Json.natBelow? UInt32.size) "column" fields
  return ⟨raw, path, line.toUInt32, column.toUInt32⟩

/-- Place and size of an element in the viewport. -/
structure Rect where
  x : Float
  y : Float
  width : Float
  height : Float
  deriving Repr, Inhabited

namespace Rect

/-- The place of an element without layout. -/
def zero : Rect :=
  ⟨0, 0, 0, 0⟩

/-- A rectangle as a value. -/
def toJson (r : Rect) : Json :=
  .ofFields [("x", .ofFloat r.x), ("y", .ofFloat r.y), ("width", .ofFloat r.width),
    ("height", .ofFloat r.height)]

/-- A rectangle from a value that has all four numbers. -/
def ofJson? (j : Json) : Option Rect := do
  let fields ← Json.record? ["x", "y", "width", "height"] 4 j
  let x ← Json.required? Json.float? "x" fields
  let y ← Json.required? Json.float? "y" fields
  let width ← Json.required? Json.float? "width" fields
  let height ← Json.required? Json.float? "height" fields
  return ⟨x, y, width, height⟩

end Rect

/-- What the host is told about an element. -/
structure Descriptor where
  identity : Option Identity
  displayName : String
  tagName : String
  textContent : String
  isTextEditable : Bool
  canEditStyles : Bool
  /-- Values of some style properties, when asked for. -/
  styles : Option (List (String × String)) := none
  /-- Place on the screen, when asked for. -/
  geometry : Option Rect := none
  deriving Repr, Inhabited

namespace Descriptor

/-- The fields of a descriptor, those left out that say nothing. -/
def fields (d : Descriptor) : List (String × Json) :=
  [("identity", .ofOption Identity.toJson d.identity), ("displayName", .str d.displayName),
    ("tagName", .str d.tagName), ("textContent", .str d.textContent),
    ("isTextEditable", .bool d.isTextEditable), ("canEditStyles", .bool d.canEditStyles)]
    ++ Json.present "styles" Json.ofTexts d.styles
    ++ Json.present "geometry" Rect.toJson d.geometry

/-- A descriptor as a value. -/
def toJson (d : Descriptor) : Json :=
  .ofFields d.fields

/-- A descriptor from a value. -/
def ofJson? (j : Json) : Option Descriptor := do
  let fields ← Json.record? ["identity", "displayName", "tagName", "textContent", "isTextEditable",
    "canEditStyles", "styles", "geometry"] 6 j
  let identity ← Json.nullable? Identity.ofJson? "identity" fields
  let displayName ← Json.required? Json.str? "displayName" fields
  let tagName ← Json.required? Json.str? "tagName" fields
  let textContent ← Json.required? Json.str? "textContent" fields
  let isTextEditable ← Json.required? Json.bool? "isTextEditable" fields
  let canEditStyles ← Json.required? Json.bool? "canEditStyles" fields
  let styles ← Json.nullable? Json.texts? "styles" fields
  let geometry ← Json.nullable? Rect.ofJson? "geometry" fields
  return { identity, displayName, tagName, textContent, isTextEditable, canEditStyles, styles, geometry }

end Descriptor

end InPlace

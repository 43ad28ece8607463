import InPlace.Messages.Envelope

/-!
# Configuration of the editor
-/

namespace InPlace

/-- How the editor is set up. -/
structure EditorConfig where
  /-- Tag that the host's messages must have. -/
  hostTag : String := InPlace.hostTag
  /-- Tag of the editor's messages. -/
  editorTag : String := InPlace.editorTag
  /-- Pixels by which an element may differ from the viewport and still be as wide. -/
  fullWidthTolerance : Float := 4
  /-- Cursor over the page while the editor is active. -/
  cursor : String := "crosshair"
  deriving Repr, Inhabited

namespace EditorConfig

/-- A configuration from the fields of a record. -/
def ofFields? (fields : List (String × Json)) : Option EditorConfig := do
  let d : EditorConfig := {}
  let hostTag ← Json.withDefault? Json.str? d.hostTag "hostTag" fields
  let editorTag ← Json.withDefault? Json.str? d.editorTag "agentTag" fields
  let fullWidthTolerance ←
    Json.withDefault? Json.float? d.fullWidthTolerance "fullWidthTolerance" fields
  let cursor ← Json.withDefault? Json.str? d.cursor "cursor" fields
  return { hostTag, editorTag, fullWidthTolerance, cursor }

/-- A configuration from a value in which every field may be left out. -/
def ofJson? (j : Json) : Option EditorConfig :=
  (Json.record? ["hostTag", "agentTag", "fullWidthTolerance", "cursor"] 0 j).bind ofFields?

/-- A configuration as a value with all its fields. -/
def toJson (c : EditorConfig) : Json :=
  .ofFields [("hostTag", .str c.hostTag), ("agentTag", .str c.editorTag),
    ("fullWidthTolerance", .ofFloat c.fullWidthTolerance), ("cursor", .str c.cursor)]

/-- Whether every setting has its usual value. -/
def isDefault (c : EditorConfig) : Bool :=
  let d : EditorConfig := {}
  c.hostTag == d.hostTag && c.editorTag == d.editorTag
    && c.fullWidthTolerance == d.fullWidthTolerance && c.cursor == d.cursor

end EditorConfig

/-- How the editor is started in a browser. -/
structure StartOptions where
  editor : EditorConfig := {}
  /-- Windows that may receive the editor's messages. -/
  targetOrigin : Option String := none
  logLevel : Option String := none
  deriving Repr, Inhabited

/-- The options in an object. -/
def StartOptions.ofJson? : Json → Option StartOptions
  | .obj fields => do
    let editor ← EditorConfig.ofFields? fields
    let targetOrigin ← Json.nullable? Json.str? "targetOrigin" fields
    let logLevel ← Json.nullable? Json.str? "logLevel" fields
    return { editor, targetOrigin, logLevel }
  | _ => none

end InPlace

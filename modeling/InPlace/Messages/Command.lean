import InPlace.Messages.Mode

/-!
# Commands

What the host asks of the editor. A command arrives as a kind and a payload. Parts of a payload that are of
no use to it (an entry of another type, an empty class name) are left out; a payload of the wrong form is
refused.

Main statement: `decode_unknown_iff` (exactly the six kinds are known).
-/

namespace InPlace

/-- Names to put into and to take out of an element's class list. -/
structure ClassChanges where
  add : List String
  remove : List String
  deriving DecidableEq, Repr, Inhabited

/-- What the host asks for. -/
inductive Command where
  | setMode (m : EditMode)
  | updateText (text : String)
  /-- Values of style properties, in the order of their names. -/
  | updateStyles (styles : List (String × String))
  | updateClasses (changes : ClassChanges)
  | deleteElement
  | clearSelection
  deriving DecidableEq, Repr, Inhabited

/-- Why a kind and a payload are no command. -/
inductive CommandFault where
  | unknownKind
  | missingMode
  | badMode (fault : Json.ChoiceFault)
  | textNotString
  | stylesNotObject
  | classesNotObject

namespace Command

/-- The kind under which a command is sent. -/
def kind : Command → String
  | setMode _ => "SET_STATE"
  | updateText _ => "UPDATE_TEXT_CONTENT"
  | updateStyles _ => "UPDATE_STYLES"
  | updateClasses _ => "UPDATE_CLASSES"
  | deleteElement => "DELETE_ELEMENT"
  | clearSelection => "CLEAR_SELECTION"

/-- The text of a style value: a string as it is, a number as it is written. -/
def styleText? : Json → Option String
  | .str s => some s
  | .int n => some (toString n)
  | .float x => some (Json.floatText x)
  | _ => none

/-- The class names in a list, without empty ones. -/
def classNames : Option Json → List String
  | some (.arr items) => (items.filterMap Json.str?).filter fun s => !s.isEmpty
  | _ => []

/-- The values that an entry of a style payload gives to properties. -/
def styleEntry? (f : String × Json) : Option (String × String) :=
  (styleText? f.2).map fun s => (f.1, s)

/-- The command of a kind with a payload. -/
def decode (kind : String) (payload : Json) : Except CommandFault Command :=
  match kind with
  | "SET_STATE" =>
    match payload.get? "state" with
    | none => .error .missingMode
    | some j =>
      match EditMode.ofJson? j with
      | .ok m => .ok (.setMode m)
      | .error fault => .error (.badMode fault)
  | "UPDATE_TEXT_CONTENT" =>
    match payload.get? "text" with
    | some (.str s) => .ok (.updateText s)
    | _ => .error .textNotString
  | "UPDATE_STYLES" =>
    match payload with
    | .obj fields => .ok (.updateStyles (fields.filterMap styleEntry?))
    | _ => .error .stylesNotObject
  | "UPDATE_CLASSES" =>
    if payload.isObject then
      .ok (.updateClasses ⟨classNames (payload.get? "add"), classNames (payload.get? "remove")⟩)
    else .error .classesNotObject
  | "DELETE_ELEMENT" => .ok .deleteElement
  | "CLEAR_SELECTION" => .ok .clearSelection
  | _ => .error .unknownKind

/-- The names of the commands. -/
def kinds : List String :=
  ["SET_STATE", "UPDATE_TEXT_CONTENT", "UPDATE_STYLES", "UPDATE_CLASSES", "DELETE_ELEMENT",
    "CLEAR_SELECTION"]

/-- Exactly the six kinds are known. -/
theorem decode_unknown_iff {kind : String} {payload : Json} :
    decode kind payload = .error .unknownKind ↔ kind ∉ kinds := by
  unfold decode
  split <;> try simp_all [kinds]
  all_goals (split <;> try simp)
  split <;> simp

end Command

/-- The wording of a fault in a message of some kind. -/
def CommandFault.message (kind : String) : CommandFault → String
  | unknownKind => "Unknown message type: " ++ kind
  | missingMode => malformed "missing state"
  | badMode fault => malformed (fault.message EditMode.names)
  | textNotString => malformed "text must be a string"
  | stylesNotObject => malformed "styles must be an object"
  | classesNotObject => malformed "classes must be an object"
where
  malformed (what : String) : String :=
    "Malformed " ++ kind ++ " payload: " ++ what

end InPlace

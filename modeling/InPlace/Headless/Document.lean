import InPlace.Editing.Classification
import InPlace.Page.Forest
import InPlace.Page.Styles

/-!
# Documents in memory

A document without a browser: a tree of elements and texts under a body, with attributes, inline styles,
values that the page's style sheets would give, places on the screen, focus, style sheets and counts of
listeners. The body is the first of its nodes.
-/

namespace InPlace.Headless

/-- An element. -/
structure Element where
  tag : String
  attributes : Table := []
  /-- Inline declarations, by the names they have in a style. -/
  styles : Table := []
  /-- Values given by style sheets. -/
  computed : Table := []
  rect : Rect := .zero
  deriving Repr, Inhabited

/-- What a node is. -/
inductive Content where
  | element (e : Element)
  | text (s : String)
  deriving Repr, Inhabited

namespace Content

/-- The element that a node is. -/
def element? : Content → Option Element
  | element e => some e
  | text _ => none

/-- The text of a text node. -/
def text? : Content → Option String
  | element _ => none
  | text s => some s

/-- Whether a node is an element. -/
def isElement (c : Content) : Bool :=
  c.element?.isSome

/-- Changes an element; a text stays as it is. -/
def mapElement (f : Element → Element) : Content → Content
  | element e => element (f e)
  | text s => text s

end Content

/-- A document in memory: its tree and what the page around it remembers. -/
structure Document where
  nodes : Forest Content
  /-- Style sheets by their ids. -/
  stylesheets : Table := []
  bodyCursor : Option String := none
  /-- One entry per registration. -/
  documentListeners : List DocumentEvent := []
  elementListeners : List (NodeId × ElementEvent) := []
  focused : Option NodeId := none
  viewportWidth : Float := 1280
  location : Option String := none
  /-- How often text, styles, classes or the tree were changed on the editor's behalf. -/
  contentMutations : Nat := 0
  deriving Repr, Inhabited

namespace Document

/-- A document with nothing in its body. -/
def empty : Document :=
  { nodes := Forest.push {} (.element { tag := "body" }) }

/-- The body is the first node, and there from the beginning. -/
def body : NodeId :=
  0

/-! ## Nodes -/

/-- The element at a node. -/
def element? (d : Document) (n : NodeId) : Option Element :=
  (d.nodes.content? n).bind Content.element?

/-- The text at a text node. -/
def text? (d : Document) (n : NodeId) : Option String :=
  (d.nodes.content? n).bind Content.text?

/-- Changes the tree. -/
def onNodes (d : Document) (f : Forest Content → Forest Content) : Document :=
  { d with nodes := f d.nodes }

/-- Changes an element; a text stays as it is. -/
def modifyElement (d : Document) (n : NodeId) (f : Element → Element) : Document :=
  d.onNodes fun nodes => nodes.modifyContent n (Content.mapElement f)

/-- The failure of a call that needs an element. -/
def notAnElement (n : NodeId) : PageError :=
  .failed ("NodeId(" ++ toString n ++ ") is not an element")

/-- Changes the document if the node is an element. -/
def ifElement (d : Document) (n : NodeId) (f : Element → Document) : Except PageError Document :=
  match d.element? n with
  | some e => .ok (f e)
  | none => .error (notAnElement n)

/-- Counts a change of content. -/
def touch (d : Document) : Document :=
  { d with contentMutations := d.contentMutations + 1 }

/-- Whether a node is below the body, or is the body. -/
def isConnected (d : Document) (n : NodeId) : Bool :=
  d.nodes.isWithin body n

/-- The node and what is inside of it, in document order. -/
def preorder (d : Document) (n : NodeId) : List NodeId :=
  d.nodes.preorder Content.isElement n

/-- All text inside a node. -/
def textContent (d : Document) (n : NodeId) : String :=
  String.join ((d.preorder n).filterMap d.text?)

/-- Whether an element carries an identity. -/
def hasIdentity (e : Element) : Bool :=
  (e.attributes.get? identityAttribute).isSome

/-- The elements with an identity, in document order. -/
def identified (d : Document) : List NodeId :=
  (d.preorder body).filter fun n => (d.element? n).any hasIdentity

/-! ## The tree -/

/-- Puts a node at the end of a parent's list, and out of the list it was in. -/
def appendChild (d : Document) (parent child : NodeId) : Document :=
  d.onNodes fun nodes => nodes.append parent child

/-- Makes an element that is nowhere in the tree yet. -/
def createElement (d : Document) (tag : String) : Document :=
  d.onNodes fun nodes => nodes.push (.element { tag := lowerCase tag })

/-- Makes an element at the end of a parent's list. -/
def appendElement (d : Document) (parent : NodeId) (tag : String) : Document :=
  d.onNodes fun nodes => nodes.pushUnder parent (.element { tag := lowerCase tag })

/-- Makes an element with an identity at the end of a parent's list. -/
def appendIdentified (d : Document) (parent : NodeId) (tag identity : String) : Document :=
  (d.appendElement parent tag).modifyElement d.nodes.fresh fun e =>
    { e with attributes := e.attributes.put identityAttribute identity }

/-- Makes a text at the end of a parent's list. -/
def appendText (d : Document) (parent : NodeId) (s : String) : Document :=
  d.onNodes fun nodes => nodes.pushUnder parent (.text s)

/-- Puts a text in place of everything inside a node. -/
def setTextContent (d : Document) (n : NodeId) (s : String) : Document :=
  let emptied := d.onNodes fun nodes => nodes.clear n
  (if s.isEmpty then emptied else emptied.appendText n s).touch

/-- The document without a node; none where it stands alone. A focus inside of it is lost. -/
def remove? (d : Document) (n : NodeId) : Option Document :=
  match d.nodes.parent? n with
  | none => none
  | some _ =>
    let d := d.onNodes fun nodes => nodes.detach n
    -- the focus may have been anywhere below the node
    let d := if d.focused.all d.isConnected then d else { d with focused := none }
    some d.touch

/-- Gives the focus to a node of the document. -/
def focus (d : Document) (n : NodeId) : Except PageError Document :=
  if d.isConnected n then .ok { d with focused := some n } else .error .detached

/-! ## Attributes and styles -/

/-- An attribute. That of the inline style is written from its declarations, if there are any. -/
def attribute? (d : Document) (n : NodeId) (name : String) : Option String :=
  (d.element? n).bind fun e =>
    if name = "style" ∧ e.styles ≠ [] then some (Styles.text e.styles) else e.attributes.get? name

/-- Sets an attribute. From a style text the declarations are read anew, and only then the change is counted. -/
def setAttribute (d : Document) (n : NodeId) (name value : String) : Except PageError Document :=
  d.ifElement n fun _ =>
    let d := d.modifyElement n fun e => { e with attributes := e.attributes.put name value }
    if name = "style" then (d.modifyElement n fun e => { e with styles := Styles.ofText value }).touch
    else d

/-- Takes an attribute away, and the styles with a style text. -/
def removeAttribute (d : Document) (n : NodeId) (name : String) : Document :=
  d.modifyElement n fun e =>
    { e with
      attributes := e.attributes.drop name
      styles := if name = "style" then [] else e.styles }

/-- The tag of an element; an empty text for anything else. -/
def tagName (d : Document) (n : NodeId) : String :=
  ((d.element? n).map Element.tag).getD ""

/-- The value of `white-space` that an element sets itself. -/
def ownWhiteSpace? (d : Document) (n : NodeId) : Option String :=
  (d.element? n).bind fun e =>
    let byTag :=
      if e.tag = "pre" then some "pre"
      else if e.tag = "textarea" then some "pre-wrap"
      else none
    ((e.styles.get? "white-space").or (e.computed.get? "white-space")).or byTag

/-- The value of `white-space` that an element sets or inherits. -/
def whiteSpace (d : Document) (n : NodeId) : String :=
  ((d.nodes.ancestors n).findSome? d.ownWhiteSpace?).getD "normal"

/-- The value of a style property. -/
def computedStyle? (d : Document) (n : NodeId) (property : String) : Option String :=
  let name := Styles.propertyName property
  if name = "white-space" then some (d.whiteSpace n)
  else (d.element? n).bind fun e => (e.styles.get? name).or (e.computed.get? name)

/-- Gives a property of an inline style another value. -/
def setStyle (d : Document) (n : NodeId) (property value : String) : Except PageError Document :=
  d.ifElement n fun _ =>
    (d.modifyElement n fun e =>
      { e with styles := e.styles.put (Styles.propertyName property) value }).touch

/-- Gives a property the value that the page's style sheets would. -/
def setComputedStyle (d : Document) (n : NodeId) (property value : String) : Document :=
  d.modifyElement n fun e =>
    { e with computed := e.computed.put (Styles.propertyName property) value }

/-- The class names of an element. -/
def classes (e : Element) : List String :=
  ((e.attributes.get? "class").map Text.words).getD []

/-- Writes class names in place of those there were. -/
def setClasses (d : Document) (n : NodeId) (names : List String) : Document :=
  (d.modifyElement n fun e =>
    { e with attributes := e.attributes.put "class" (" ".intercalate names) }).touch

/-- Adds a class name behind the others, unless it is among them. -/
def addClass (d : Document) (n : NodeId) (name : String) : Except PageError Document :=
  d.ifElement n fun e =>
    if (classes e).contains name then d else d.setClasses n (classes e ++ [name])

/-- Takes a class name away wherever it stands. -/
def removeClass (d : Document) (n : NodeId) (name : String) : Except PageError Document :=
  d.ifElement n fun e =>
    if (classes e).contains name then d.setClasses n ((classes e).filter (· != name)) else d

/-- Sets or removes an attribute of the body. -/
def setBodyAttribute (d : Document) (name : String) : Option String → Document
  | some value => d.modifyElement body fun e => { e with attributes := e.attributes.put name value }
  | none => d.modifyElement body fun e => { e with attributes := e.attributes.drop name }

/-! ## Texts and places -/

/-- The text inside a node as it is shown: with single spaces, unless white space is kept. -/
def renderedText (d : Document) (n : NodeId) : String :=
  let s := d.textContent n
  if Editability.preservesWhiteSpace (d.whiteSpace n) then s else " ".intercalate (Text.words s)

/-- The texts directly inside a node. -/
def childTexts (d : Document) (n : NodeId) : List String :=
  (d.nodes.children n).filterMap d.text?

/-- Where an element is on the screen. -/
def rect (d : Document) (n : NodeId) : Rect :=
  ((d.element? n).map Element.rect).getD .zero

/-- Moves an element on the screen. -/
def setRect (d : Document) (n : NodeId) (r : Rect) : Document :=
  d.modifyElement n fun e => { e with rect := r }

/-! ## Style sheets and listeners -/

/-- Adds a style sheet behind the others. -/
def injectStylesheet (d : Document) (id css : String) : Document :=
  { d with stylesheets := d.stylesheets ++ [(id, css)] }

/-- Takes the style sheets with an id away. -/
def removeStylesheet (d : Document) (id : String) : Document :=
  { d with stylesheets := d.stylesheets.drop id }

/-- Adds a listener to the document. -/
def listen (d : Document) (l : DocumentEvent) : Document :=
  { d with documentListeners := l :: d.documentListeners }

/-- Takes one listener away from the document. -/
def unlisten (d : Document) (l : DocumentEvent) : Document :=
  { d with documentListeners := d.documentListeners.erase l }

/-- Adds a listener to an element. -/
def listenTo (d : Document) (n : NodeId) (l : ElementEvent) : Except PageError Document :=
  d.ifElement n fun _ => { d with elementListeners := (n, l) :: d.elementListeners }

/-- Takes one listener away from an element. -/
def unlistenTo (d : Document) (n : NodeId) (l : ElementEvent) : Document :=
  { d with elementListeners := d.elementListeners.erase (n, l) }

end Document

end InPlace.Headless

import InPlace.Editing.Classification
import InPlace.Page.Forest
import InPlace.Page.Styles

/-!
# Documents in a browser

A document with a head and a body. All that an element has is in its attributes: its inline style and its
class names are read from them and written back to them. The document notes when children were added or
removed in it, and loses the focus together with the element that holds it.

The document itself is its first node, followed by the root element, the head and the body.
-/

namespace InPlace.Browser

/-- An element. -/
structure Element where
  tag : String
  /-- Whether it belongs to another language than the page, as an element of a drawing does. -/
  isForeign : Bool := false
  attributes : Table := []
  /-- Values given by style sheets, by the names they have in a style. -/
  computed : Table := []
  rect : Rect := .zero
  deriving Repr, Inhabited

/-- What a node is. -/
inductive Content where
  | document
  | element (e : Element)
  | text (s : String)
  deriving Repr, Inhabited

namespace Content

/-- The element that a node is. -/
def element? : Content → Option Element
  | element e => some e
  | _ => none

/-- The text of a text node. -/
def text? : Content → Option String
  | text s => some s
  | _ => none

/-- Whether a node of this kind has children. -/
def isInner : Content → Bool
  | text _ => false
  | _ => true

/-- Changes an element; any other node stays as it is. -/
def mapElement (f : Element → Element) : Content → Content
  | element e => element (f e)
  | c => c

end Content

namespace Element

/-- The declarations of the inline style. Of two with one name the later counts, in its place. -/
def declarations (e : Element) : Table :=
  let written := Styles.ofText ((e.attributes.get? "style").getD "")
  (written.filter fun d => !d.2.isEmpty).foldl (fun t d => Table.drop d.1 t ++ [d]) []

/-- Writes the inline style from its declarations. -/
def setDeclarations (e : Element) (ds : Table) : Element :=
  { e with attributes := e.attributes.put "style" (Styles.text ds) }

/-- Takes a declaration out of the inline style, if it is there. -/
def dropDeclaration (e : Element) (name : String) : Element :=
  match e.declarations.get? name with
  | some _ => e.setDeclarations (e.declarations.drop name)
  | none => e

/-- Puts a declaration into the inline style. One without a value is taken out of it. -/
def putDeclaration (e : Element) (name value : String) : Element :=
  if value.isEmpty then e.dropDeclaration name else e.setDeclarations (e.declarations.put name value)

/-- The class names, each of them once. -/
def classes (e : Element) : List String :=
  let written := Text.wordsWith Text.isAsciiBlank ((e.attributes.get? "class").getD "")
  written.foldl (fun names name => if names.contains name then names else names ++ [name]) []

/-- Writes the class names. Where there are none no attribute is made for them. -/
def setClasses (e : Element) (names : List String) : Element :=
  if names.isEmpty && (e.attributes.get? "class").isNone then e
  else { e with attributes := e.attributes.put "class" (" ".intercalate names) }

/-- The value of `white-space` that the element sets itself. -/
def whiteSpace? (e : Element) : Option String :=
  let byTag :=
    if lowerCase e.tag = "pre" then some "pre"
    else if lowerCase e.tag = "textarea" then some "pre-wrap"
    else none
  ((e.declarations.get? "white-space").or (e.computed.get? "white-space")).or byTag

/-- Whether an element carries an identity. -/
def hasIdentity (e : Element) : Bool :=
  (e.attributes.get? identityAttribute).isSome

end Element

/-- A document. -/
structure Document where
  nodes : Forest Content
  focused : Option NodeId := none
  /-- Whether children were added or removed in the document. -/
  changed : Bool := false
  deriving Repr, Inhabited

namespace Document

/-! ## Nodes -/

/-- The document itself, as a node. -/
def top : NodeId :=
  0

/-- A document with a root element, and with or without a head and a body in it. The two are made in any
case. -/
def new (head body : Bool) : Document :=
  let element := fun tag => Content.element { tag }
  let nodes := ((Forest.push {} .document).pushUnder top (element "html")).push (element "head")
  -- the root element is 1, the head 2 and the body 3
  let nodes := (if head then nodes.append 1 2 else nodes).push (element "body")
  { nodes := if body then nodes.append 1 3 else nodes }

/-- The element at a node. -/
def element? (d : Document) (n : NodeId) : Option Element :=
  (d.nodes.content? n).bind Content.element?

/-- The text at a text node. -/
def text? (d : Document) (n : NodeId) : Option String :=
  (d.nodes.content? n).bind Content.text?

/-- Changes the tree. -/
def onNodes (d : Document) (f : Forest Content → Forest Content) : Document :=
  { d with nodes := f d.nodes }

/-- Changes an element; any other node stays as it is. -/
def modifyElement (d : Document) (n : NodeId) (f : Element → Element) : Document :=
  d.onNodes fun nodes => nodes.modifyContent n (Content.mapElement f)

/-- Whether a node is in the document. -/
def isConnected (d : Document) (n : NodeId) : Bool :=
  d.nodes.isWithin top n

/-- The node and its ancestors that are elements. -/
def ancestors (d : Document) (n : NodeId) : List NodeId :=
  (d.nodes.ancestors n).filter fun a => (d.element? a).isSome

/-- The node and what is inside of it, in document order. -/
def preorder (d : Document) (n : NodeId) : List NodeId :=
  d.nodes.preorder Content.isInner n

/-- The parent of a node, if it is an element. -/
def parentElement? (d : Document) (n : NodeId) : Option NodeId :=
  (d.nodes.parent? n).filter fun p => (d.element? p).isSome

/-- The root element. -/
def root? (d : Document) : Option NodeId :=
  (d.nodes.children top).find? fun n => (d.element? n).isSome

/-- The first child of the root element with a tag of the page's language. -/
def childOfRoot? (d : Document) (tag : String) : Option NodeId :=
  d.root?.bind fun root =>
    (d.nodes.children root).find? fun n => (d.element? n).any fun e => !e.isForeign && e.tag == tag

/-- The first body of the root element. -/
def body? (d : Document) : Option NodeId :=
  d.childOfRoot? "body"

/-- The first head of the root element. -/
def head? (d : Document) : Option NodeId :=
  d.childOfRoot? "head"

/-- Whether a node is the body or the root element. -/
def isRoot (d : Document) (n : NodeId) : Bool :=
  d.body? == some n || d.root? == some n

/-- The elements with an identity, in document order. -/
def identified (d : Document) : List NodeId :=
  (d.preorder top).filter fun n => (d.element? n).any Element.hasIdentity

/-- The first element with an id. -/
def byId? (d : Document) (id : String) : Option NodeId :=
  (d.preorder top).find? fun n => (d.element? n).any fun e => e.attributes.get? "id" == some id

/-! ## The tree -/

/-- Notes that children of a node were added or removed, if it is in the document. -/
def noteChange (d : Document) (parent : NodeId) : Document :=
  { d with changed := d.changed || d.isConnected parent }

/-- Takes the focus from a node and from what is inside of it. -/
def blurWithin (d : Document) (n : NodeId) : Document :=
  if d.focused.any (d.nodes.isWithin n) then { d with focused := none } else d

/-- Takes a node out of its place. -/
def detach (d : Document) (n : NodeId) : Document :=
  match d.nodes.parent? n with
  | none => d
  | some p => ((d.noteChange p).blurWithin n).onNodes fun nodes => nodes.detach n

/-- Puts a node at the end of a parent's list, and out of the list it was in. -/
def append (d : Document) (parent child : NodeId) : Document :=
  ((d.detach child).onNodes fun nodes => nodes.append parent child).noteChange parent

/-- Makes a node at the end of a parent's list. -/
def pushUnder (d : Document) (parent : NodeId) (c : Content) : Document :=
  (d.onNodes fun nodes => nodes.pushUnder parent c).noteChange parent

/-- Puts a text in place of everything inside a node. -/
def setTextContent (d : Document) (n : NodeId) (s : String) : Document :=
  -- one by one: each of them takes the focus inside of it along
  let d := (d.nodes.children n).foldl detach d
  if s.isEmpty then d else d.pushUnder n (.text s)

/-- The document without a node; none where it stands alone. -/
def remove? (d : Document) (n : NodeId) : Option Document :=
  (d.nodes.parent? n).map fun _ => d.detach n

/-! ## Attributes and styles -/

/-- The value of an attribute of an element. -/
def attribute? (d : Document) (n : NodeId) (name : String) : Option String :=
  (d.element? n).bind fun e => e.attributes.get? name

/-- Gives an attribute a value, or takes it away. -/
def setAttribute (d : Document) (n : NodeId) (name : String) : Option String → Document
  | some value => d.modifyElement n fun e => { e with attributes := e.attributes.put name value }
  | none => d.modifyElement n fun e => { e with attributes := e.attributes.drop name }

/-- The name of an element, in small letters. -/
def tagName (d : Document) (n : NodeId) : String :=
  ((d.element? n).map fun e => lowerCase e.tag).getD ""

/-- Whether a node is an element of the page's language. -/
def isNative (d : Document) (n : NodeId) : Bool :=
  (d.element? n).any fun e => !e.isForeign

/-- The value of `white-space` that an element sets or inherits. -/
def whiteSpace (d : Document) (n : NodeId) : String :=
  ((d.nodes.ancestors n).findSome? fun a => (d.element? a).bind Element.whiteSpace?).getD "normal"

/-- The value of a property, named as in a style. -/
def computedStyle (d : Document) (n : NodeId) (name : String) : String :=
  if name = "white-space" then d.whiteSpace n
  else
    ((d.element? n).bind fun e => (e.declarations.get? name).or (e.computed.get? name)).getD ""

/-- Gives a property, named as in a script, a value in the inline style. -/
def setStyle (d : Document) (n : NodeId) (property value : String) : Except PageError Document :=
  if d.isNative n then
    .ok (d.modifyElement n fun e => e.putDeclaration (Styles.propertyName property) value)
  else .error (.failed "element has no inline style")

/-- Gives a property, named as in a style, the value that the page's style sheets would. -/
def setComputedStyle (d : Document) (n : NodeId) (name value : String) : Document :=
  d.modifyElement n fun e => { e with computed := e.computed.put name value }

/-- Changes the class names of an element. The name that is added or taken away holds no blank. -/
def changeClasses (d : Document) (n : NodeId) (name : String) (f : List String → List String) :
    Except PageError Document :=
  if name.toList.any Text.isAsciiBlank then
    .error (.failed ("The token provided ('" ++ name
      ++ "') contains HTML space characters, which are not valid in tokens."))
  else .ok (d.modifyElement n fun e => e.setClasses (f e.classes))

/-- Adds a class name behind the others, unless it is among them. -/
def addClass (d : Document) (n : NodeId) (name : String) : Except PageError Document :=
  d.changeClasses n name fun names => if names.contains name then names else names ++ [name]

/-- Takes a class name away wherever it stands. -/
def removeClass (d : Document) (n : NodeId) (name : String) : Except PageError Document :=
  d.changeClasses n name fun names => names.filter (· != name)

/-- Sets the cursor over the body, or takes it away. -/
def setBodyCursor (d : Document) (cursor : Option String) : Document :=
  match d.body? with
  | none => d
  | some body => d.modifyElement body fun e => e.putDeclaration "cursor" (cursor.getD "")

/-- Sets or removes an attribute of the body, if there is one. -/
def setBodyAttribute (d : Document) (name : String) (value : Option String) : Document :=
  match d.body? with
  | none => d
  | some body => d.setAttribute body name value

/-! ## Style sheets -/

/-- Puts a style sheet at the end of the head. -/
def injectStylesheet (d : Document) (id css : String) : Except PageError Document :=
  match d.head? with
  | none => .error (.failed "document has no head")
  | some head =>
    let style := d.nodes.fresh
    let d := d.onNodes fun nodes => nodes.push (.element { tag := "style", attributes := [("id", id)] })
    .ok ((d.setTextContent style css).append head style)

/-- Removes the elements with an id, at most `k` of them. -/
def removeById (d : Document) (id : String) : Nat → Document
  | 0 => d
  | k + 1 =>
    match d.byId? id with
    | none => d
    | some n => removeById (d.detach n) id k

/-- Removes the elements with an id. -/
def removeStylesheet (d : Document) (id : String) : Document :=
  d.removeById id d.nodes.fresh

/-! ## Texts and places -/

/-- All text inside a node. -/
def textContent (d : Document) (n : NodeId) : String :=
  String.join ((d.preorder n).filterMap d.text?)

/-- The text inside a node as it is shown: with single spaces, unless white space is kept. That of a
foreign element stands as it is. -/
def renderedText (d : Document) (n : NodeId) : String :=
  let s := d.textContent n
  if !d.isNative n || Editability.preservedWhiteSpace.contains (d.whiteSpace n) then s
  else " ".intercalate (Text.wordsWith Text.isAsciiBlank s)

/-- The texts directly inside a node. -/
def childTexts (d : Document) (n : NodeId) : List String :=
  (d.nodes.children n).filterMap d.text?

/-- Where an element is on the screen. -/
def rect (d : Document) (n : NodeId) : Rect :=
  ((d.element? n).map Element.rect).getD .zero

/-- Moves an element on the screen. -/
def setRect (d : Document) (n : NodeId) (r : Rect) : Document :=
  d.modifyElement n fun e => { e with rect := r }

end Document

end InPlace.Browser

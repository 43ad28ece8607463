import InPlace.Editing.Classification

/-!
# Names of elements

What the attributes of an element say about it is remembered, as long as its identity attribute reads the
same. What may be edited is found anew each time, because it depends on styles that change freely.
-/

namespace InPlace

/-- What the attributes of an element say about it. -/
structure Naming where
  /-- The identity attribute. -/
  raw : Option String
  identity : Option Identity
  displayName : String
  tagName : String
  deriving DecidableEq, Repr, Inhabited

/-- What is known about an element. -/
structure Metadata extends Naming where
  editability : Editability
  preformatted : Bool
  deriving DecidableEq, Repr, Inhabited

section

variable {P N : Type} [Page P N]

/-- What the attributes of an element say. It is called by its name attribute, or else by its tag. -/
def Naming.ofElement (page : P) (n : N) : Naming :=
  let raw := Page.attribute? page n identityAttribute
  let tag := Page.tagName page n
  -- an empty name is none
  let name := (Page.attribute? page n nameAttribute).filter fun s => !s.isEmpty
  ⟨raw, raw.bind Identity.parse?, name.getD tag, tag⟩

/-- What is known about an element with these names. -/
def Metadata.ofNaming (page : P) (n : N) (naming : Naming) : Metadata :=
  { naming with
    editability := .ofElement page n
    preformatted := Editability.isPreformatted page n }

/-- What is to be known about an element now. -/
def Metadata.ofElement (page : P) (n : N) : Metadata :=
  .ofNaming page n (.ofElement page n)

end

/-- The names of elements that have been looked up. -/
structure NameCache (N : Type) where
  entries : List (N × Naming) := []
  /-- The elements that were asked about, in the order in which they first were. -/
  seen : List N := []

namespace NameCache

section

variable {N : Type} [DecidableEq N]

/-- The names that are remembered for an element. -/
def entry? (c : NameCache N) (n : N) : Option Naming :=
  (c.entries.find? fun e => e.1 == n).map Prod.snd

/-- Puts an element behind those that were asked about, unless it is one of them. -/
def note (c : NameCache N) (n : N) : NameCache N :=
  if n ∈ c.seen then c else { c with seen := c.seen ++ [n] }

/-- The number of an element in the order in which elements were first asked about. -/
def number (c : NameCache N) (n : N) : Nat :=
  (c.note n).seen.idxOf n + 1

/-- Forgets an element. -/
def forget (c : NameCache N) (n : N) : NameCache N :=
  let c := c.note n
  { c with entries := c.entries.filter fun e => e.1 != n }

/-- Forgets all elements but these. -/
def prune (c : NameCache N) (live : List N) : NameCache N :=
  let c := live.foldl note c
  { c with entries := c.entries.filter fun e => live.contains e.1 }

/-- Forgets what is known of any element. -/
def clear (c : NameCache N) : NameCache N :=
  { c with entries := [] }

/-- How many elements are known. -/
def size (c : NameCache N) : Nat :=
  c.entries.length

end

section

variable {P N : Type} [Page P N] [DecidableEq N]

/-- Whether names are remembered for an element whose identity attribute reads otherwise now. -/
def isStale (c : NameCache N) (page : P) (n : N) : Bool :=
  (c.entry? n).any fun e => e.raw != Page.attribute? page n identityAttribute

/-- Whether names are remembered for an element that still hold. -/
def isFresh (c : NameCache N) (page : P) (n : N) : Bool :=
  (c.entry? n).any fun e => e.raw == Page.attribute? page n identityAttribute

/-- The names of an element: those that are remembered, or else those it has now. -/
def naming (c : NameCache N) (page : P) (n : N) : Naming :=
  match (c.entry? n).filter fun e => e.raw == Page.attribute? page n identityAttribute with
  | some e => e
  | none => .ofElement page n

/-- What is known about an element. -/
def lookUp (c : NameCache N) (page : P) (n : N) : Metadata :=
  .ofNaming page n (c.naming page n)

/-- Remembers the names of an element. -/
def remember (c : NameCache N) (page : P) (n : N) : NameCache N :=
  let naming := c.naming page n
  let c := c.forget n
  { c with entries := (n, naming) :: c.entries }

end

end NameCache

end InPlace

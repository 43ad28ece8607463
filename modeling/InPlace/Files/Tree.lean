/-!
# File trees

A tree of directories, files and links. A place in the tree is the list of names that lead to it from the
top.

Main statement: `get?_put` (a place that was put is found again).
-/

namespace InPlace.Files

/-- A file with its bytes, a link with the path it points to, or a directory with its entries. -/
inductive Tree where
  | file (content : ByteArray)
  | link (target : String)
  | dir (entries : List (String × Tree))
  deriving Inhabited

/-- The names that lead to a place, from the top. -/
abbrev Place := List String

namespace Tree

/-- The entry of a directory with a name. -/
def lookup (name : String) : List (String × Tree) → Option Tree
  | [] => none
  | (n, t) :: es => if n = name then some t else lookup name es

/-- Puts an entry in place of one with the same name, or at the end. -/
def putEntry (name : String) (t : Tree) : List (String × Tree) → List (String × Tree)
  | [] => [(name, t)]
  | (n, u) :: es => if n = name then (name, t) :: es else (n, u) :: putEntry name t es

/-- An entry that is put has its name, and the other names keep theirs. -/
theorem lookup_putEntry (name other : String) (t : Tree) (es : List (String × Tree)) :
    lookup other (putEntry name t es) = if name = other then some t else lookup other es := by
  induction es with
  | nil => simp [putEntry, lookup]
  | cons e es ih =>
      obtain ⟨n, u⟩ := e
      by_cases hn : n = name
      · subst hn
        by_cases h : n = other <;> simp [putEntry, lookup, h]
      · by_cases ho : n = other
        · subst ho
          simp [putEntry, lookup, hn, Ne.symm hn]
        · simp [putEntry, lookup, hn, ho, ih]

/-- What is at a place, without following links. -/
def get? : Tree → Place → Option Tree
  | t, [] => some t
  | .dir es, name :: rest => (lookup name es).bind fun t => t.get? rest
  | _, _ :: _ => none
  termination_by structural _ place => place

/-- The tree with something put at a place, in a directory that is there. -/
def put (t : Tree) (place : Place) (u : Tree) : Tree :=
  match place, t with
  | [], _ => u
  | [name], .dir es => .dir (putEntry name u es)
  | name :: rest, .dir es =>
    match lookup name es with
    | some child => .dir (putEntry name (child.put rest u) es)
    | none => t
  | _ :: _, t => t
  termination_by structural place

variable {t u child : Tree} {es : List (String × Tree)} {place : Place} {first name : String}

/-- What is below a name is in the entry of that name. -/
theorem get?_cons_eq_some_iff : t.get? (first :: place) = some u ↔
    ∃ es child, t = .dir es ∧ lookup first es = some child ∧ child.get? place = some u := by
  cases t with
  | file content => simp [get?]
  | link target => simp [get?]
  | dir es => simp [get?, Option.bind_eq_some_iff]

/-- Going down to a directory, a name of the way at a time. -/
theorem dir_induction {P : ∀ t place, (∃ es, get? t place = some (.dir es)) → Prop}
    (here : ∀ es h, P (.dir es) [] h)
    (below : ∀ {es first child place} (_ : lookup first es = some child)
      (inside : ∃ es, child.get? place = some (.dir es)) h,
      P child place inside → P (.dir es) (first :: place) h)
    (h : ∃ es, t.get? place = some (.dir es)) : P t place h := by
  induction place generalizing t with
  | nil =>
      obtain ⟨es, hes⟩ := h
      have top := hes
      simp only [get?, Option.some.injEq] at top
      subst top
      exact here es _
  | cons first rest ih =>
      obtain ⟨es, hes⟩ := h
      obtain ⟨entries, child, rfl, found, inside⟩ := get?_cons_eq_some_iff.1 hes
      exact below found ⟨es, inside⟩ _ (ih ⟨es, inside⟩)

/-- What is put below a name is put in the entry of that name. -/
theorem put_cons (found : lookup first es = some child) (place : Place) (name : String) (u : Tree) :
    (dir es).put (first :: place ++ [name]) u = .dir (putEntry first (child.put (place ++ [name]) u) es) := by
  cases hr : place ++ [name] with
  | nil => simp at hr
  | cons a as => simp [put, hr, found]

/-- A place that was put is found again, if the directory around it is there. -/
theorem get?_put (h : ∃ es, t.get? place = some (.dir es)) :
    (t.put (place ++ [name]) u).get? (place ++ [name]) = some u := by
  induction h using dir_induction with
  | here es _ => simp [put, get?, lookup_putEntry]
  | below found _ _ ih =>
      rw [put_cons found, List.cons_append]
      simpa only [get?, lookup_putEntry, if_true, Option.bind_some] using ih

mutual

/-- Files, links and directories in a tree. -/
def size : Tree → Nat
  | .dir es => 1 + sizeAll es
  | _ => 1

/-- The sizes of entries together. -/
def sizeAll : List (String × Tree) → Nat
  | [] => 0
  | (_, t) :: es => t.size + sizeAll es

end

end Tree

end InPlace.Files

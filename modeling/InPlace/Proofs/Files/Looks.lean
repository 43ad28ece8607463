import InPlace.Files.Tree
import Mathlib

/-!
# What is at a place

At each place of a file tree there is a file, a link, a directory or nothing. Most of what is said about trees can be
said about this alone: two trees that look the same everywhere are led through by the same paths. Where a tree is
changed by making directories and writing files, it grows: nothing that is there goes away or becomes something else,
and only files get other contents.

Main statements: `look?_put` and `Grows.put`.
-/

namespace InPlace.Files

/-- What is at a place, without what is below it. -/
inductive Look where
  | file (content : ByteArray)
  | link (target : String)
  | dir
  deriving DecidableEq

theorem Look.file_ne_link (content : ByteArray) (target : String) : Look.file content ≠ .link target := by
  intro same
  cases same

theorem Look.dir_ne_link (target : String) : Look.dir ≠ .link target := by
  intro same
  cases same

namespace Tree

/-- What a tree is at its top. -/
def look : Tree → Look
  | file content => .file content
  | link target => .link target
  | dir _ => .dir

/-- What is at a place of a tree; none where nothing is. -/
def look? (t : Tree) (place : Place) : Option Look :=
  (t.get? place).map look

variable {t u c : Tree} {p q : Place} {n : String}

theorem look?_nil (t : Tree) : t.look? [] = some t.look := by
  cases t <;> rfl

theorem look?_eq_dir_iff : t.look? p = some .dir ↔ ∃ es, t.get? p = some (.dir es) := by
  unfold look?
  cases t.get? p with
  | none => simp
  | some u => cases u <;> simp [look]

theorem look?_eq_file_iff {content : ByteArray} : t.look? p = some (.file content) ↔ t.get? p = some (.file content) := by
  unfold look?
  cases t.get? p with
  | none => simp
  | some u => cases u <;> simp [look]

/-- What is below a place is below in the tree that stands there. -/
theorem get?_append (t : Tree) (p q : Place) : t.get? (p ++ q) = (t.get? p).bind fun u => u.get? q := by
  induction p generalizing t with
  | nil => cases t <;> rfl
  | cons n p ih =>
    cases t with
    | file content => rfl
    | link target => rfl
    | dir es =>
      show (lookup n es).bind (fun u => u.get? (p ++ q)) = ((lookup n es).bind fun u => u.get? p).bind _
      cases lookup n es with
      | none => rfl
      | some u => exact ih u

/-- What stands in a directory is its entry. -/
theorem get?_snoc {es : List (String × Tree)} (h : t.get? p = some (.dir es)) (n : String) :
    t.get? (p ++ [n]) = lookup n es := by
  rw [get?_append, h]
  show (lookup n es).bind (fun u => u.get? []) = _
  cases lookup n es with
  | none => rfl
  | some u => cases u <;> rfl

/-- What has something below it is a directory. -/
theorem look?_of_append (h : t.look? (p ++ q) ≠ none) (hq : q ≠ []) : t.look? p = some .dir := by
  have found : t.get? (p ++ q) ≠ none := fun hn => h (by rw [look?, hn]; rfl)
  rw [get?_append] at found
  obtain ⟨n, q, rfl⟩ := List.exists_cons_of_ne_nil hq
  cases hp : t.get? p with
  | none =>
    rw [hp] at found
    exact absurd rfl found
  | some u =>
    rw [hp] at found
    cases u with
    | file content => exact absurd rfl found
    | link target => exact absurd rfl found
    | dir es => exact look?_eq_dir_iff.2 ⟨es, hp⟩

theorem look?_of_snoc (h : t.look? (p ++ [n]) ≠ none) : t.look? p = some .dir :=
  look?_of_append h (List.cons_ne_nil _ _)

/-- Above a place there are directories. -/
theorem look?_dropLast (h : t.look? p ≠ none) : t.look? p.dropLast ≠ none := by
  rcases List.eq_nil_or_concat' p with rfl | ⟨front, last, rfl⟩
  · exact h
  · rw [List.dropLast_concat, look?_of_snoc h]
    exact Option.some_ne_none _

/-- Above a directory there is a directory, or itself at the top. -/
theorem look?_dropLast_of_dir (h : t.look? p = some .dir) : t.look? p.dropLast = some .dir := by
  rcases List.eq_nil_or_concat' p with rfl | ⟨front, last, rfl⟩
  · exact h
  · rw [List.dropLast_concat]
    exact look?_of_snoc (by rw [h]; exact Option.some_ne_none _)

/-! ## Putting -/

/-- Nothing is below the top of a tree. -/
def Hollow (t : Tree) : Prop :=
  ∀ n q, t.get? (n :: q) = none

theorem hollow_file (content : ByteArray) : (Tree.file content).Hollow :=
  fun _ _ => rfl

theorem hollow_dir : (Tree.dir []).Hollow :=
  fun _ _ => rfl

/-- What is not below a place that is written stays. -/
theorem look?_put_other (hp : ∃ es, t.get? p = some (.dir es)) (n : String) (u : Tree) (hq : ¬ p ++ [n] <+: q) :
    (t.put (p ++ [n]) u).look? q = t.look? q := by
  -- on the place; on the way down one entry is put in place of one of its name
  induction hp using dir_induction generalizing q with
  | here entries _ =>
    show (Tree.dir (putEntry n u entries)).look? q = _
    cases q with
    | nil => rfl
    | cons m q =>
      have other : n ≠ m := by
        rintro rfl
        exact hq ⟨q, rfl⟩
      show ((lookup m (putEntry n u entries)).bind _).map look = _
      rw [lookup_putEntry, if_neg other]
      rfl
  | @below entries a child p found _ _ ih =>
    rw [put_cons found]
    cases q with
    | nil => rfl
    | cons m q =>
      show ((lookup m (putEntry a _ entries)).bind fun t => t.get? q).map look =
        ((lookup m entries).bind fun t => t.get? q).map look
      rw [lookup_putEntry]
      split
      · rename_i same
        subst same
        rw [found]
        exact ih fun hpre => hq (List.cons_prefix_cons.2 ⟨rfl, hpre⟩)
      · rfl

/-- Something is put at one place, in a directory, where nothing is or a file. -/
theorem look?_put (hp : t.look? p = some .dir) (hold : ∀ old, t.get? (p ++ [n]) = some old → old.Hollow) (hu : u.Hollow)
    (q : Place) : (t.put (p ++ [n]) u).look? q = if q = p ++ [n] then some u.look else t.look? q := by
  have dir := look?_eq_dir_iff.1 hp
  split
  · rename_i same
    rw [same, look?, get?_put dir]
    rfl
  · rename_i other
    by_cases below : p ++ [n] <+: q
    · obtain ⟨rest, rfl⟩ := below
      cases rest with
      | nil => exact absurd (List.append_nil _) other
      | cons m rest =>
        rw [look?, look?, get?_append _ (p ++ [n]), get?_append _ (p ++ [n]), get?_put dir]
        show (u.get? (m :: rest)).map look = _
        rw [hu]
        cases hold' : t.get? (p ++ [n]) with
        | none => rfl
        | some old =>
          show _ = (old.get? (m :: rest)).map look
          rw [hold old hold']
    · exact look?_put_other dir n u below

/-- What is neither a link nor a directory has nothing below it. -/
theorem hollow_of_look? (h : ∀ target, t.look? p ≠ some (.link target)) (hd : t.look? p ≠ some .dir) (old : Tree)
    (hold : t.get? p = some old) : old.Hollow := by
  cases old with
  | file content => exact hollow_file content
  | link target => exact absurd (by rw [look?, hold]; rfl) (h target)
  | dir es => exact absurd (look?_eq_dir_iff.2 ⟨es, hold⟩) hd

/-- A file may be put where nothing is, or a file. -/
theorem look?_putFile (hp : t.look? p = some .dir)
    (h : t.look? (p ++ [n]) = none ∨ ∃ old, t.look? (p ++ [n]) = some (.file old))
    (content : ByteArray) (q : Place) :
    (t.put (p ++ [n]) (.file content)).look? q = if q = p ++ [n] then some (.file content) else t.look? q := by
  refine look?_put hp (hollow_of_look? (fun target hl => ?_) fun hd => ?_) (hollow_file content) q
  · rcases h with h | ⟨old, h⟩ <;> rw [h] at hl <;> cases hl
  · rcases h with h | ⟨old, h⟩ <;> rw [h] at hd <;> cases hd

/-- A directory may be put where nothing is. -/
theorem look?_putDir (hp : t.look? p = some .dir) (h : t.look? (p ++ [n]) = none) (q : Place) :
    (t.put (p ++ [n]) (.dir [])).look? q = if q = p ++ [n] then some .dir else t.look? q := by
  refine look?_put hp (hollow_of_look? (fun target hl => ?_) fun hd => ?_) hollow_dir q
  · rw [h] at hl
    cases hl
  · rw [h] at hd
    cases hd

/-! ## Growing -/

/-- What is in a tree is in another one too, and is what it was but for the contents of files; what is new is no link. -/
structure Grows (t c : Tree) : Prop where
  dir : ∀ q, t.look? q = some .dir → c.look? q = some .dir
  link : ∀ q target, t.look? q = some (.link target) → c.look? q = some (.link target)
  file : ∀ q content, t.look? q = some (.file content) → ∃ content', c.look? q = some (.file content')
  links : ∀ q target, c.look? q = some (.link target) → t.look? q = some (.link target)

theorem Grows.refl (t : Tree) : t.Grows t :=
  ⟨fun _ h => h, fun _ _ h => h, fun _ content h => ⟨content, h⟩, fun _ _ h => h⟩

theorem Grows.trans (h : t.Grows c) (h' : c.Grows u) : t.Grows u where
  dir q hq := h'.dir q (h.dir q hq)
  link q target hq := h'.link q target (h.link q target hq)
  file q content hq := by
    obtain ⟨content', hc⟩ := h.file q content hq
    exact h'.file q content' hc
  links q target hq := h.links q target (h'.links q target hq)

/-- A tree grows where directories are made and files are written. -/
theorem Grows.of_looks (h : ∀ q, c.look? q = t.look? q ∨ (t.look? q = none ∧ ∀ target, c.look? q ≠ some (.link target)) ∨
    (∃ old, t.look? q = some (.file old)) ∧ ∃ new, c.look? q = some (.file new)) : t.Grows c where
  dir q hq := by
    -- what was there is the same or a file that was one, so directories and links stay what they are
    rcases h q with same | ⟨none, -⟩ | ⟨⟨old, hold⟩, -⟩
    · exact same.trans hq
    · rw [none] at hq
      cases hq
    · rw [hold] at hq
      cases hq
  link q target hq := by
    rcases h q with same | ⟨none, -⟩ | ⟨⟨old, hold⟩, -⟩
    · exact same.trans hq
    · rw [none] at hq
      cases hq
    · rw [hold] at hq
      cases hq
  file q content hq := by
    rcases h q with same | ⟨none, -⟩ | ⟨-, new⟩
    · exact ⟨content, same.trans hq⟩
    · rw [none] at hq
      cases hq
    · exact new
  links q target hq := by
    rcases h q with same | ⟨-, other⟩ | ⟨-, new, hnew⟩
    · exact same.symm.trans hq
    · exact absurd hq (other target)
    · rw [hnew] at hq
      cases hq

/-- A tree grows when a file is written that is new, or over another file. -/
theorem Grows.putFile (hp : t.look? p = some .dir)
    (h : t.look? (p ++ [n]) = none ∨ ∃ old, t.look? (p ++ [n]) = some (.file old)) (content : ByteArray) :
    t.Grows (t.put (p ++ [n]) (.file content)) := by
  refine .of_looks fun q => ?_
  rw [look?_putFile hp h]
  split
  · rename_i same
    exact .inr (same ▸ h.imp (fun none => ⟨none, nofun⟩) fun old => ⟨old, content, rfl⟩)
  · exact .inl rfl

/-- A tree grows when a directory is made where nothing was. -/
theorem Grows.putDir (hp : t.look? p = some .dir) (h : t.look? (p ++ [n]) = none) :
    t.Grows (t.put (p ++ [n]) (.dir [])) := by
  refine .of_looks fun q => ?_
  rw [look?_putDir hp h]
  split
  · rename_i same
    exact .inr (.inl ⟨same ▸ h, nofun⟩)
  · exact .inl rfl

end Tree

end InPlace.Files

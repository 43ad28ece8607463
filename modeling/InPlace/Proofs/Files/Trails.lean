import InPlace.Proofs.Files.Reading

/-!
# What a path looks at

A path that is followed looks at some places of the tree, one after the other, and at no others. So it leads to the same
place in every tree that looks the same at these, whatever else has become of the tree, and the text it leads to is the
same.

Main statements: `locate_congr` and `readText_congr`.
-/

namespace InPlace.Files.Tree

open Text.Path (isAbsolute)

variable {t c : Tree} {links n : Nat} {here p q : Place} {name path : String} {rest todo front : List String}

/-- The places that are looked at when names are followed. What comes after a link is left to `through`. -/
def trailFrom (t : Tree) (through : Place → List String → List Place) (here : Place) : List String → List Place
  | [] => [here]
  | name :: rest =>
    here ::
      if t.look? here = some .dir then
        if name = "." then t.trailFrom through here rest
        else if name = ".." then t.trailFrom through here.dropLast rest
        else if maxNameLength < name.utf8ByteSize then []
        else
          match t.look? (here ++ [name]) with
          | none => [here ++ [name]]
          | some (.link target) =>
            (here ++ [name]) :: through (if isAbsolute target then [] else here) (pathSteps target ++ rest)
          | some _ => t.trailFrom through (here ++ [name]) rest
      else []

/-- The places that are looked at when names are followed from a place, through at most `links` links. -/
def trail (t : Tree) (links : Nat) : Place → List String → List Place :=
  match links with
  | 0 => t.trailFrom fun _ _ => []
  | n + 1 => t.trailFrom (t.trail n)

/-- The places that are looked at when a path is followed. -/
def pathTrail (t : Tree) (path : String) : List Place :=
  t.trail maxLinks [] (pathSteps path)

theorem trail_nil (t : Tree) (links : Nat) (here : Place) : t.trail links here [] = [here] := by
  cases links <;> rfl

theorem trail_eq (t : Tree) (links : Nat) : t.trail links = t.trailFrom fun here todo =>
    match links with
    | 0 => []
    | n + 1 => t.trail n here todo := by
  cases links <;> rfl

/-- One step of a trail. -/
theorem trail_cons (t : Tree) (links : Nat) (here : Place) (name : String) (rest : List String) :
    t.trail links here (name :: rest) = here ::
      if t.look? here = some .dir then
        if name = "." then t.trail links here rest
        else if name = ".." then t.trail links here.dropLast rest
        else if maxNameLength < name.utf8ByteSize then []
        else
          match t.look? (here ++ [name]) with
          | none => [here ++ [name]]
          | some (.link target) => (here ++ [name]) ::
            match links with
            | 0 => []
            | n + 1 => t.trail n (if isAbsolute target then [] else here) (pathSteps target ++ rest)
          | some _ => t.trail links (here ++ [name]) rest
      else [] := by
  rw [trail_eq]
  rfl

theorem trail_missing (h : t.Enters here name) (nothing : t.look? (here ++ [name]) = none) :
    t.trail links here (name :: rest) = [here, here ++ [name]] := by
  rw [trail_cons, if_pos h.dir, if_neg h.one, if_neg h.two, if_neg h.short, nothing]

theorem trail_spent {target : String} (h : t.Enters here name) (look : t.look? (here ++ [name]) = some (.link target)) :
    t.trail 0 here (name :: rest) = [here, here ++ [name]] := by
  rw [trail_cons, if_pos h.dir, if_neg h.one, if_neg h.two, if_neg h.short, look]

theorem trail_link {target : String} (h : t.Enters here name) (look : t.look? (here ++ [name]) = some (.link target)) :
    t.trail (links + 1) here (name :: rest) = here :: (here ++ [name]) ::
      t.trail links (if isAbsolute target then [] else here) (pathSteps target ++ rest) := by
  rw [trail_cons, if_pos h.dir, if_neg h.one, if_neg h.two, if_neg h.short, look]

/-- A name that is no link adds the place where it is found. -/
theorem trail_entry {l : Look} (h : t.Enters here name) (look : t.look? (here ++ [name]) = some l)
    (other : ∀ target, l ≠ .link target) :
    t.trail links here (name :: rest) = here :: t.trail links (here ++ [name]) rest := by
  rw [trail_cons, if_pos h.dir, if_neg h.one, if_neg h.two, if_neg h.short, look]
  cases l with
  | link target => exact absurd rfl (other target)
  | dir => rfl
  | file content => rfl

/-- A trail begins where it begins. -/
theorem mem_trail_here (t : Tree) (links : Nat) (here : Place) (todo : List String) : here ∈ t.trail links here todo := by
  cases todo with
  | nil =>
    rw [trail_nil]
    exact List.mem_singleton_self _
  | cons name rest =>
    rw [trail_cons]
    exact List.mem_cons_self

/-- A name that is looked up is looked at. -/
theorem Enters.mem_trail (h : t.Enters here name) (links : Nat) (rest : List String) :
    here ++ [name] ∈ t.trail links here (name :: rest) := by
  have later {ps : List Place} : here ++ [name] ∈ here :: (here ++ [name]) :: ps :=
    List.mem_cons_of_mem _ List.mem_cons_self
  cases look : t.look? (here ++ [name]) with
  | none =>
    rw [trail_missing h look]
    exact later
  | some l =>
    cases l with
    | link target =>
      cases links with
      | zero =>
        rw [trail_spent h look]
        exact later
      | succ links =>
        rw [trail_link h look]
        exact later
    | dir | file content =>
      rw [trail_entry h look nofun]
      exact List.mem_cons_of_mem _ (mem_trail_here _ _ _ _)

/-- What a path goes on with is looked at as well. -/
theorem Advances.mem_trail (s : t.Advances links here name n q front) (h : p ∈ t.trail n q (front ++ rest)) :
    p ∈ t.trail links here (name :: rest) := by
  cases s with
  | stay dir =>
    rw [trail_cons, if_pos dir, if_pos rfl]
    exact List.mem_cons_of_mem _ h
  | up dir =>
    rw [trail_cons, if_pos dir, if_neg (by decide), if_pos rfl]
    exact List.mem_cons_of_mem _ h
  | link enters look =>
    rw [trail_link enters look]
    exact List.mem_cons_of_mem _ (List.mem_cons_of_mem _ h)
  | entry enters look other =>
    rw [trail_entry enters look other]
    exact List.mem_cons_of_mem _ h

section Same

variable {many : Nat} (h : ∀ q ∈ t.trail many here (name :: rest), c.look? q = t.look? q)

include h

theorem Enters.congr (enters : t.Enters here name) : c.Enters here name :=
  ⟨(h here (mem_trail_here _ _ _ _)).trans enters.dir, enters.one, enters.two, enters.short⟩

/-- A name leads on alike where the directory and the entry look alike. -/
theorem Advances.congr (s : t.Advances links here name n q front) : c.Advances links here name n q front := by
  have first := h here (mem_trail_here _ _ _ _)
  cases s with
  | stay dir => exact .stay (first.trans dir)
  | up dir => exact .up (first.trans dir)
  | link enters look => exact .link (enters.congr h) ((h _ (enters.mem_trail _ _)).trans look)
  | entry enters look other => exact .entry (enters.congr h) ((h _ (enters.mem_trail _ _)).trans look) other

/-- A name fails alike where the directory and the entry look alike. -/
theorem Halts.congr {e : OsError} (s : t.Halts links here name e) : c.Halts links here name e := by
  have first := h here (mem_trail_here _ _ _ _)
  cases s with
  | blocked other => exact .blocked (first ▸ other)
  | long dir one two long => exact .long (first.trans dir) one two long
  | spent enters look => exact .spent (enters.congr h) ((h _ (enters.mem_trail _ _)).trans look)

end Same

/-- Names lead to the same place in a tree that looks the same wherever they look, also with fewer links than these
could be followed with. -/
theorem locate_congr {fewer : Nat} (hf : fewer ≤ links) (h : ∀ q ∈ t.trail links here todo, c.look? q = t.look? q) :
    c.locate fewer here todo = t.locate fewer here todo := by
  induction links, here, todo using t.step_induction generalizing fewer with
  | nil links here => rw [locate_nil, locate_nil]
  | step s ih =>
    rcases s.fewer hf with spent | ⟨m, hm, s'⟩
    · rw [spent.locate, (spent.congr h).locate]
    · rw [s'.locate, (s'.congr h).locate]
      exact ih hm fun q hq => h q (s.mem_trail hq)
  | halt s => rw [(s.fewer hf).locate, ((s.fewer hf).congr h).locate]
  | missing enters nothing =>
    rw [locate_missing enters nothing, locate_missing (enters.congr h) ((h _ (enters.mem_trail _ _)).trans nothing)]

/-- Where names lead is looked at as well. -/
theorem mem_trail_of_found (h : t.locate links here todo = .ok (.found p)) : p ∈ t.trail links here todo := by
  induction h using found_induction with
  | here links => exact mem_trail_here _ _ _ _
  | step s h ih => exact s.mem_trail ih

/-! ## Paths -/

section Paths

variable (h : ∀ q ∈ t.pathTrail path, c.look? q = t.look? q)

include h

theorem locatePath_congr : c.locatePath path = t.locatePath path := by
  unfold locatePath
  rw [locate_congr (Nat.le_refl _) h]

/-- Where a path leads there is what was there. -/
theorem look?_congr (found : t.locatePath path = .ok (.found p)) : c.look? p = t.look? p :=
  h p (mem_trail_of_found (locatePath_eq_ok_iff.1 found).2.2)

/-- What is read is what was read, as far as that does not depend on what is in a directory. -/
theorem look_read_congr : (c.read path).map look = (t.read path).map look := by
  unfold Tree.read
  rw [locatePath_congr h]
  cases found : t.locatePath path with
  | error e => rfl
  | ok l =>
    cases l with
    | absent parent name => rfl
    | found p =>
      have same := look?_congr h found
      -- of a directory only that it is one is the same, not what is in it
      unfold look? at same
      dsimp only
      cases hc : c.get? p with
      | none =>
        rw [hc] at same
        rw [Option.map_eq_none_iff.1 same.symm]
      | some v =>
        rw [hc] at same
        obtain ⟨u, hu, look⟩ := Option.map_eq_some_iff.1 same.symm
        rw [hu]
        exact congrArg Except.ok look.symm

theorem pathExists_congr : c.pathExists path = t.pathExists path := by
  have exists_eq (t : Tree) : t.pathExists path = ((t.read path).map look).toOption.isSome := by
    unfold pathExists
    cases t.read path <;> rfl
  rw [exists_eq, exists_eq, look_read_congr h]

/-- A text is read alike where all looks alike on the way to it. -/
theorem readText_congr : c.readText path = t.readText path := by
  have same := look_read_congr h
  unfold readText
  cases hc : c.read path with
  | error e =>
    cases ht : t.read path with
    | error e' =>
      rw [hc, ht] at same
      cases same
      rfl
    | ok u =>
      rw [hc, ht] at same
      cases same
  | ok v =>
    cases ht : t.read path with
    | error e =>
      rw [hc, ht] at same
      cases same
    | ok u =>
      rw [hc, ht] at same
      have look : v.look = u.look := Except.ok.inj same
      cases v <;> cases u <;> cases look <;> rfl

end Paths

end InPlace.Files.Tree

import InPlace.Files.Disk
import InPlace.Proofs.Files.Looks

/-!
# Where paths lead

A path is followed step by step, and each step asks only what is at one place. So a path that leads somewhere leads to
the same place when the tree has grown, and a path that leads nowhere for another reason than that something is missing
does so for good.

What one name comes to is said once (`turn`): the path goes on (`Advances`), fails (`Halts`) or a name is missing. What is
said of whole paths goes by `step_induction`, and by `found_induction` and `absent_induction` where their end is known.

Main statements: `locate_append` and `Grows.locate_found`.
-/

namespace InPlace.Files.Tree

variable {t c : Tree} {links : Nat} {here p : Place} {name : String} {rest xs ys : List String}

/-- What comes after a link is followed with one link less, if there is one. -/
theorem locate_eq (t : Tree) (links : Nat) : t.locate links = t.locateFrom fun here todo =>
    match links with
    | 0 => .error .tooManyLinks
    | n + 1 => t.locate n here todo := by
  cases links <;> rfl

/-- One step on a path, by what is at a place. -/
theorem locate_cons (t : Tree) (links : Nat) (here : Place) (name : String) (rest : List String) :
    t.locate links here (name :: rest) =
      if t.look? here = some .dir then
        if name = "." then t.locate links here rest
        else if name = ".." then t.locate links here.dropLast rest
        else if maxNameLength < name.utf8ByteSize then .error .nameTooLong
        else
          match t.look? (here ++ [name]) with
          | none => if rest.isEmpty then .ok (.absent here name) else .error .notFound
          | some (.link target) =>
            match links with
            | 0 => .error .tooManyLinks
            | n + 1 => t.locate n (if Text.Path.isAbsolute target then [] else here) (pathSteps target ++ rest)
          | some _ => t.locate links (here ++ [name]) rest
      else .error .notDirectory := by
  rw [locate_eq, locateFrom]
  by_cases dir : t.look? here = some .dir
  · obtain ⟨es, hes⟩ := look?_eq_dir_iff.1 dir
    rw [if_pos dir, hes, look?, get?_snoc hes]
    dsimp only
    cases lookup name es with
    | none => rfl
    | some u => cases u <;> rfl
  · rw [if_neg dir]
    split
    · rename_i es hes
      exact absurd (look?_eq_dir_iff.2 ⟨es, hes⟩) dir
    · rfl

/-- The next name of a path is looked up among the entries of a directory. -/
structure Enters (t : Tree) (here : Place) (name : String) : Prop where
  dir : t.look? here = some .dir
  one : name ≠ "."
  two : name ≠ ".."
  short : ¬ maxNameLength < name.utf8ByteSize

/-- What the next name of a path comes to. -/
inductive Turn (t : Tree) (here : Place) (name : String) : Prop
  | blocked (other : t.look? here ≠ some .dir)
  | stay (dir : t.look? here = some .dir) (dot : name = ".")
  | up (dir : t.look? here = some .dir) (dots : name = "..")
  | long (dir : t.look? here = some .dir) (one : name ≠ ".") (two : name ≠ "..")
      (long : maxNameLength < name.utf8ByteSize)
  | missing (enters : t.Enters here name) (nothing : t.look? (here ++ [name]) = none)
  | link (enters : t.Enters here name) (target : String) (look : t.look? (here ++ [name]) = some (.link target))
  | entry (enters : t.Enters here name) (l : Look) (look : t.look? (here ++ [name]) = some l)
      (other : ∀ target, l ≠ .link target)

/-- At every name one thing happens, and no other. -/
theorem turn (t : Tree) (here : Place) (name : String) : t.Turn here name := by
  by_cases dir : t.look? here = some .dir
  · by_cases one : name = "."
    · exact .stay dir one
    · by_cases two : name = ".."
      · exact .up dir two
      · by_cases long : maxNameLength < name.utf8ByteSize
        · exact .long dir one two long
        · have enters : t.Enters here name := ⟨dir, one, two, long⟩
          cases look : t.look? (here ++ [name]) with
          | none => exact .missing enters look
          | some l =>
            cases l with
            | link target => exact .link enters target look
            | dir => exact .entry enters .dir look nofun
            | file content => exact .entry enters (.file content) look nofun
  · exact .blocked dir

/-- What holds of a path holds of all, if it holds of each one by what follows its first name, and by all that come with
fewer links. -/
theorem locate_induction {P : Nat → Place → List String → Prop} (nil : ∀ links here, P links here [])
    (cons : ∀ links here name rest, (∀ here, P links here rest) → (∀ n here todo, links = n + 1 → P n here todo) →
      P links here (name :: rest)) (links : Nat) (here : Place) (todo : List String) : P links here todo := by
  induction links generalizing here todo with
  | zero =>
    induction todo generalizing here with
    | nil => exact nil 0 here
    | cons name rest ih => exact cons 0 here name rest ih fun n _ _ hn => nomatch hn
  | succ k fewer =>
    induction todo generalizing here with
    | nil => exact nil (k + 1) here
    | cons name rest ih =>
      refine cons (k + 1) here name rest ih fun n here todo hn => ?_
      cases hn
      exact fewer here todo

/-! ## One step -/

/-- How a path goes on behind its next name: with the links that are left, from a place, and by the names of a link that
was met before its own. -/
inductive Advances (t : Tree) : Nat → Place → String → Nat → Place → List String → Prop
  | stay {links : Nat} {here : Place} (dir : t.look? here = some .dir) : Advances t links here "." links here []
  | up {links : Nat} {here : Place} (dir : t.look? here = some .dir) : Advances t links here ".." links here.dropLast []
  | link {links : Nat} {here : Place} {name target : String} (enters : t.Enters here name)
      (look : t.look? (here ++ [name]) = some (.link target)) :
      Advances t (links + 1) here name links (if Text.Path.isAbsolute target then [] else here) (pathSteps target)
  | entry {links : Nat} {here : Place} {name : String} {l : Look} (enters : t.Enters here name)
      (look : t.look? (here ++ [name]) = some l) (other : ∀ target, l ≠ .link target) :
      Advances t links here name links (here ++ [name]) []

/-- Why a path fails at its next name, but for a name that is missing. -/
inductive Halts (t : Tree) : Nat → Place → String → OsError → Prop
  | blocked {links : Nat} {here : Place} {name : String} (other : t.look? here ≠ some .dir) :
      Halts t links here name .notDirectory
  | long {links : Nat} {here : Place} {name : String} (dir : t.look? here = some .dir) (one : name ≠ ".")
      (two : name ≠ "..") (long : maxNameLength < name.utf8ByteSize) : Halts t links here name .nameTooLong
  | spent {here : Place} {name target : String} (enters : t.Enters here name)
      (look : t.look? (here ++ [name]) = some (.link target)) : Halts t 0 here name .tooManyLinks

section Steps

variable {n k : Nat} {q : Place} {front : List String} {e : OsError}

/-- After a name that leads on the rest of the path decides. -/
theorem Advances.locate (s : t.Advances links here name n q front) (rest : List String) :
    t.locate links here (name :: rest) = t.locate n q (front ++ rest) := by
  rw [locate_cons]
  cases s with
  | stay dir => rw [if_pos dir, if_pos rfl, List.nil_append]
  | up dir => rw [if_pos dir, if_neg (by decide), if_pos rfl, List.nil_append]
  | link h look => rw [if_pos h.dir, if_neg h.one, if_neg h.two, if_neg h.short, look]
  | @entry _ _ _ l h look other =>
    rw [if_pos h.dir, if_neg h.one, if_neg h.two, if_neg h.short, look, List.nil_append]
    cases l with
    | link target => exact absurd rfl (other target)
    | dir => rfl
    | file content => rfl

/-- A name that fails ends the path, whatever follows. -/
theorem Halts.locate (s : t.Halts links here name e) (rest : List String) :
    t.locate links here (name :: rest) = .error e := by
  rw [locate_cons]
  cases s with
  | blocked other => rw [if_neg other]
  | long dir one two long => rw [if_pos dir, if_neg one, if_neg two, if_pos long]
  | spent h look => rw [if_pos h.dir, if_neg h.one, if_neg h.two, if_neg h.short, look]

theorem locate_missing (h : t.Enters here name) (nothing : t.look? (here ++ [name]) = none) :
    t.locate links here (name :: rest) = if rest.isEmpty then .ok (.absent here name) else .error .notFound := by
  rw [locate_cons, if_pos h.dir, if_neg h.one, if_neg h.two, if_neg h.short, nothing]

theorem locate_notFound (h : t.Enters here name) (nothing : t.look? (here ++ [name]) = none) (more : rest ≠ []) :
    t.locate links here (name :: rest) = .error .notFound := by
  rw [locate_missing h nothing, if_neg fun none => more (List.isEmpty_iff.1 none)]

theorem locate_stay (h : t.look? here = some .dir) : t.locate links here ("." :: rest) = t.locate links here rest :=
  (Advances.stay h).locate rest

theorem locate_up (h : t.look? here = some .dir) :
    t.locate links here (".." :: rest) = t.locate links here.dropLast rest :=
  (Advances.up h).locate rest

theorem locate_entry {l : Look} (h : t.Enters here name) (look : t.look? (here ++ [name]) = some l)
    (other : ∀ target, l ≠ .link target) : t.locate links here (name :: rest) = t.locate links (here ++ [name]) rest :=
  (Advances.entry h look other).locate rest

/-- Only in a directory a path goes on. -/
theorem Advances.dir (s : t.Advances links here name n q front) : t.look? here = some .dir := by
  cases s with
  | stay dir | up dir => exact dir
  | link enters look | entry enters look other => exact enters.dir

/-- A path goes on from where something is. -/
theorem Advances.there (s : t.Advances links here name n q front) : t.look? q ≠ none := by
  have inside : t.look? here ≠ none := by rw [s.dir]; exact Option.some_ne_none _
  cases s with
  | stay dir => exact inside
  | up dir => exact look?_dropLast inside
  | link enters look =>
    split
    · rw [look?_nil]
      exact Option.some_ne_none _
    · exact inside
  | entry enters look other =>
    rw [look]
    exact Option.some_ne_none _

theorem Advances.le (s : t.Advances links here name n q front) : n ≤ links := by
  cases s with
  | link enters look => exact Nat.le_succ _
  | stay dir | up dir | entry enters look other => exact Nat.le_refl _

/-- With fewer links a path goes on as well, or has none left. -/
theorem Advances.fewer (s : t.Advances links here name n q front) (hk : k ≤ links) :
    t.Halts k here name .tooManyLinks ∨ ∃ m, m ≤ n ∧ t.Advances k here name m q front := by
  cases s with
  | stay dir => exact .inr ⟨k, hk, .stay dir⟩
  | up dir => exact .inr ⟨k, hk, .up dir⟩
  | link enters look =>
    cases k with
    | zero => exact .inl (.spent enters look)
    | succ m => exact .inr ⟨m, Nat.le_of_succ_le_succ hk, .link enters look⟩
  | entry enters look other => exact .inr ⟨k, hk, .entry enters look other⟩

/-- A name that fails does so with fewer links. -/
theorem Halts.fewer (s : t.Halts links here name e) (hk : k ≤ links) : t.Halts k here name e := by
  cases s with
  | blocked other => exact .blocked other
  | long dir one two long => exact .long dir one two long
  | spent enters look =>
    cases hk
    exact .spent enters look

end Steps

/-! ## Step by step -/

/-- What holds of a path holds of all, if it holds of each one by what it goes on with. -/
theorem step_induction (t : Tree) {P : Nat → Place → List String → Prop} (nil : ∀ links here, P links here [])
    (step : ∀ {links here name rest n q front}, t.Advances links here name n q front → P n q (front ++ rest) →
      P links here (name :: rest))
    (halt : ∀ {links here name rest e}, t.Halts links here name e → P links here (name :: rest))
    (missing : ∀ {links here name rest}, t.Enters here name → t.look? (here ++ [name]) = none →
      P links here (name :: rest)) (links : Nat) (here : Place) (todo : List String) : P links here todo := by
  -- the names on the path get fewer, but for a link: that costs one of the links
  induction links, here, todo using locate_induction with
  | nil links here => exact nil links here
  | cons links here name rest ih fewer =>
    cases t.turn here name with
    | blocked other => exact halt (.blocked other)
    | stay dir dot =>
      subst dot
      exact step (.stay dir) (ih here)
    | up dir dots =>
      subst dots
      exact step (.up dir) (ih _)
    | long dir one two long => exact halt (.long dir one two long)
    | missing enters nothing => exact missing enters nothing
    | link enters target look =>
      cases links with
      | zero => exact halt (.spent enters look)
      | succ links => exact step (.link enters look) (fewer links _ _ rfl)
    | entry enters l look other => exact step (.entry enters look other) (ih _)

/-- What holds where a path ends holds of all paths that lead there, if each step keeps it. -/
theorem found_induction {P : ∀ links here xs, t.locate links here xs = .ok (.found p) → Prop}
    (here : ∀ links, P links p [] (locate_nil t links p))
    (step : ∀ {links here name rest n q front} (s : t.Advances links here name n q front)
      (h : t.locate n q (front ++ rest) = .ok (.found p)), P n q (front ++ rest) h →
      P links here (name :: rest) ((s.locate rest).trans h))
    {links : Nat} {here : Place} {xs : List String} (h : t.locate links here xs = .ok (.found p)) :
    P links here xs h := by
  induction links, here, xs using t.step_induction with
  | nil links start =>
    have ends := h
    rw [locate_nil] at ends
    cases ends
    exact here links
  | step s ih => exact step s ((s.locate _).symm.trans h) (ih _)
  | halt s => cases (s.locate _).symm.trans h
  | missing enters nothing =>
    have ends := (locate_missing enters nothing).symm.trans h
    split at ends <;> cases ends

/-- What holds of a name that is missing holds of all paths that lead to it, if each step keeps it. -/
theorem absent_induction {P : ∀ links here xs, t.locate links here xs = .ok (.absent p name) → Prop}
    (last : ∀ links (enters : t.Enters p name) (nothing : t.look? (p ++ [name]) = none),
      P links p [name] (locate_missing enters nothing))
    (step : ∀ {links here first rest n q front} (s : t.Advances links here first n q front)
      (h : t.locate n q (front ++ rest) = .ok (.absent p name)), P n q (front ++ rest) h →
      P links here (first :: rest) ((s.locate rest).trans h))
    {links : Nat} {here : Place} {xs : List String} (h : t.locate links here xs = .ok (.absent p name)) :
    P links here xs h := by
  induction links, here, xs using t.step_induction with
  | nil links start =>
    have ends := (locate_nil t links start).symm.trans h
    cases ends
  | step s ih => exact step s ((s.locate _).symm.trans h) (ih _)
  | halt s => cases (s.locate _).symm.trans h
  | @missing links here first rest enters nothing =>
    have ends := (locate_missing enters nothing).symm.trans h
    cases rest with
    | nil =>
      cases ends
      exact last links enters nothing
    | cons next rest => cases ends

/-- A name that is missing is missing in a directory. -/
theorem look?_of_absent (h : t.locate links here xs = .ok (.absent p name)) :
    t.look? p = some .dir ∧ t.look? (p ++ [name]) = none := by
  induction h using absent_induction with
  | last links enters nothing => exact ⟨enters.dir, nothing⟩
  | step s h ih => exact ih

/-! ## Steps in a tree that grows -/

theorem Grows.enters (hg : t.Grows c) (h : t.Enters here name) : c.Enters here name :=
  ⟨hg.dir here h.dir, h.one, h.two, h.short⟩

/-- What is no link does not become one. -/
theorem Grows.entry (hg : t.Grows c) {l : Look} (look : t.look? p = some l) (other : ∀ target, l ≠ .link target) :
    ∃ l', c.look? p = some l' ∧ ∀ target, l' ≠ .link target := by
  cases l with
  | link target => exact absurd rfl (other target)
  | dir => exact ⟨.dir, hg.dir p look, nofun⟩
  | file content =>
    obtain ⟨content', look'⟩ := hg.file p content look
    exact ⟨.file content', look', nofun⟩

/-- A name that leads on does so in a tree that has grown. -/
theorem Grows.advances (hg : t.Grows c) {n : Nat} {q : Place} {front : List String}
    (s : t.Advances links here name n q front) : c.Advances links here name n q front := by
  cases s with
  | stay dir => exact .stay (hg.dir here dir)
  | up dir => exact .up (hg.dir here dir)
  | link enters look => exact .link (hg.enters enters) (hg.link _ _ look)
  | entry enters look other =>
    obtain ⟨l', look', other'⟩ := hg.entry look other
    exact .entry (hg.enters enters) look' other'

/-! ## One path after another -/

/-- A path that goes on where another leads to goes on with the links that are left, which are as many when the tree has
grown. -/
theorem Grows.locate_append (hg : t.Grows c) (h : t.locate links here xs = .ok (.found p)) : ∃ n, n ≤ links ∧
    ∀ ys, t.locate links here (xs ++ ys) = t.locate n p ys ∧ c.locate links here (xs ++ ys) = c.locate n p ys := by
  induction h using found_induction with
  | here links => exact ⟨links, Nat.le_refl _, fun ys => ⟨rfl, rfl⟩⟩
  | step s h ih =>
    obtain ⟨n, hn, goes⟩ := ih
    refine ⟨n, hn.trans s.le, fun ys => ?_⟩
    rw [List.cons_append, s.locate, (hg.advances s).locate, ← List.append_assoc]
    exact goes ys

/-- A path that goes on where another leads to goes on with the links that are left. -/
theorem locate_append (h : t.locate links here xs = .ok (.found p)) :
    ∃ n, n ≤ links ∧ ∀ ys, t.locate links here (xs ++ ys) = t.locate n p ys :=
  let ⟨n, fewer, goes⟩ := (Grows.refl t).locate_append h
  ⟨n, fewer, fun ys => (goes ys).1⟩

/-- A path that leads on has led somewhere on the way. -/
theorem found_of_locate_append {r : Located} (hys : ys ≠ []) (h : t.locate links here (xs ++ ys) = .ok r) :
    ∃ p, t.locate links here xs = .ok (.found p) := by
  induction links, here, xs using t.step_induction with
  | nil links here => exact ⟨here, locate_nil _ _ _⟩
  | step s ih =>
    rw [List.cons_append, s.locate, ← List.append_assoc] at h
    rw [s.locate]
    exact ih h
  | halt s =>
    rw [List.cons_append, s.locate] at h
    cases h
  | missing enters nothing =>
    rw [List.cons_append, locate_notFound enters nothing (List.append_ne_nil_of_right_ne_nil _ hys)] at h
    cases h

/-- A path that fails fails in the same way when it goes on. -/
theorem locate_append_error {e : OsError} (h : t.locate links here xs = .error e) (ys : List String) :
    t.locate links here (xs ++ ys) = .error e := by
  induction links, here, xs using t.step_induction with
  | nil links here =>
    rw [locate_nil] at h
    cases h
  | step s ih =>
    rw [s.locate] at h
    rw [List.cons_append, s.locate, ← List.append_assoc]
    exact ih h
  | halt s =>
    rw [s.locate] at h
    rw [List.cons_append, s.locate]
    exact h
  -- a name that is missing in the middle of a path is as much missing in a longer one
  | @missing links here name rest enters nothing =>
    rw [locate_missing enters nothing] at h
    cases rest with
    | nil => cases h
    | cons next rest =>
      rw [List.cons_append, List.cons_append, locate_notFound enters nothing (List.cons_ne_nil _ _)]
      exact h

/-- A path that leads to a name that is missing leads no further. -/
theorem locate_append_absent (hys : ys ≠ []) (h : t.locate links here xs = .ok (.absent p name)) :
    t.locate links here (xs ++ ys) = .error .notFound := by
  induction h using absent_induction with
  | last links enters nothing => exact locate_notFound enters nothing hys
  | step s h ih => rwa [List.cons_append, s.locate, ← List.append_assoc]

/-! ## Fewer links -/

/-- With fewer links a path leads to the same place, if it does not run out of them. -/
theorem locate_fewer {fewer : Nat} (hf : fewer ≤ links) :
    t.locate fewer here xs = .error .tooManyLinks ∨ t.locate fewer here xs = t.locate links here xs := by
  induction links, here, xs using t.step_induction generalizing fewer with
  | nil links here => exact .inr (by rw [locate_nil, locate_nil])
  | step s ih =>
    rcases s.fewer hf with spent | ⟨m, hm, s'⟩
    · exact .inl (spent.locate _)
    · rw [s.locate, s'.locate]
      exact ih hm
  | halt s => exact .inr (by rw [s.locate, (s.fewer hf).locate])
  | missing enters nothing => exact .inr (by rw [locate_missing enters nothing, locate_missing enters nothing])

/-! ## Directories on a path -/

/-- A path to a place begins with a step. -/
theorem advances_of_found (h : t.locate links here (name :: rest) = .ok (.found p)) :
    ∃ n q front, t.Advances links here name n q front ∧ t.locate n q (front ++ rest) = .ok (.found p) := by
  generalize hx : name :: rest = xs at h
  cases h using found_induction with
  | here links => cases hx
  | step s h ih =>
    cases hx
    exact ⟨_, _, _, s, h⟩

/-- The last step to a directory begins in a directory. -/
theorem locate_step_dir (h : t.locate links here (name :: rest) = .ok (.found p)) : t.look? here = some .dir := by
  obtain ⟨n, q, front, s, -⟩ := advances_of_found h
  exact s.dir

/-- Dots lead to directories. -/
theorem look?_of_dots (hn : name = "." ∨ name = "..") (h : t.locate links here [name] = .ok (.found p)) :
    t.look? p = some .dir := by
  have inside := locate_step_dir h
  rcases hn with rfl | rfl
  · rw [locate_stay inside, locate_nil] at h
    cases h
    exact inside
  · rw [locate_up inside, locate_nil] at h
    cases h
    exact look?_dropLast_of_dir inside

/-- Names with single dots among them. -/
inductive Dotted : List String → List String → Prop
  | nil : Dotted [] []
  | keep (name : String) {xs ys : List String} (h : Dotted xs ys) : Dotted (name :: xs) (name :: ys)
  | dot {xs ys : List String} (h : Dotted xs ys) : Dotted ("." :: xs) ys

theorem Dotted.refl (xs : List String) : Dotted xs xs := by
  induction xs with
  | nil => exact .nil
  | cons x xs ih => exact .keep x ih

theorem Dotted.append (h : Dotted xs ys) (more : List String) : Dotted (xs ++ more) (ys ++ more) := by
  induction h with
  | nil => exact .refl more
  | keep name h ih => exact .keep name ih
  | dot h ih => exact .dot ih

theorem Dotted.behind (front : List String) (h : Dotted xs ys) : Dotted (front ++ xs) (front ++ ys) := by
  induction front with
  | nil => exact h
  | cons x front ih => exact .keep x ih

theorem dotted_filter (xs : List String) : Dotted xs (xs.filter (· ≠ ".")) := by
  induction xs with
  | nil => exact .nil
  | cons x xs ih =>
    by_cases here : x = "."
    · subst here
      exact .dot ih
    · rw [List.filter_cons_of_pos (by simp only [ne_eq, here, not_false_eq_true, decide_true])]
      exact .keep x ih

/-- Single dots do not matter on the way to a directory. -/
theorem locate_dotted (hd : t.look? p = some .dir) (h : Dotted xs ys) (hy : t.locate links here ys = .ok (.found p)) :
    t.locate links here xs = .ok (.found p) := by
  induction hy using found_induction generalizing xs with
  | here links =>
    generalize hn : [] = ys at h
    induction h with
    | nil => exact locate_nil _ _ _
    | keep name h ih => cases hn
    | dot h ih =>
      rw [locate_stay hd]
      exact ih hn
  | @step links here name rest n q front s hy further =>
    generalize hn : name :: rest = ys at h
    induction h with
    | nil => cases hn
    | keep name h ih =>
      cases hn
      rw [s.locate]
      exact further (h.behind front)
    | dot h ih =>
      rw [locate_stay s.dir]
      exact ih hn

/-! ## Paths in a tree that grows -/

/-- A path that leads to a place leads there when the tree has grown. -/
theorem Grows.locate_found (hg : t.Grows c) (h : t.locate links here xs = .ok (.found p)) :
    c.locate links here xs = .ok (.found p) := by
  induction h using found_induction with
  | here links => exact locate_nil _ _ _
  | step s h ih => rwa [(hg.advances s).locate]

end InPlace.Files.Tree

import InPlace.Files.Walk
import InPlace.Proofs.Files.Relative
import InPlace.Proofs.Files.Storing
import Mathlib.Data.List.Nodup

/-!
# Files that a walk lists

A walk goes from directory to directory, through links as well, and lists the files that it meets by the names on the
way. The way to one file is never the beginning of the way to another. Where there are no links, what is listed is
just what is at the places below.

Main statements: `exists_way_of_mem_filesWithin`, `Way.eq_of_append`, `mem_filesBelow_iff` and `nodup_filesBelow`.
-/

namespace InPlace.Files.Tree

open Text.Path (join)

variable {t : Tree} {p q : Place} {n path file : String} {ns ms : List String} {skipped : String → Bool}

/-- Names that can be names, and no two alike. -/
structure TidyEntries (es : List (String × Tree)) : Prop where
  nodup : (es.map Prod.fst).Nodup
  proper : ∀ e ∈ es, Proper e.1
  short : ∀ e ∈ es, ¬ maxNameLength < e.1.utf8ByteSize

/-- A tree as an operating system keeps it. -/
def Tidy (t : Tree) : Prop :=
  ∀ p es, t.get? p = some (.dir es) → TidyEntries es

theorem tidy_file (content : ByteArray) : (Tree.file content).Tidy := by
  intro p es h
  cases p <;> cases h

theorem tidy_link (target : String) : (Tree.link target).Tidy := by
  intro p es h
  cases p <;> cases h

/-- What is looked up is an entry. -/
theorem mem_of_lookup {es : List (String × Tree)} {u : Tree} (h : lookup n es = some u) : (n, u) ∈ es := by
  induction es with
  | nil => cases h
  | cons e es ih =>
    obtain ⟨m, v⟩ := e
    unfold lookup at h
    split at h
    · rename_i same
      cases h
      exact same ▸ List.mem_cons_self
    · exact List.mem_cons_of_mem _ (ih h)

/-- In a tidy directory each entry is the one that its name finds. -/
theorem TidyEntries.lookup_eq {es : List (String × Tree)} (h : TidyEntries es) {u : Tree} (hm : (n, u) ∈ es) :
    lookup n es = some u := by
  have nodup := h.nodup
  clear h
  induction es with
  | nil => cases hm
  | cons e es ih =>
    obtain ⟨m, v⟩ := e
    rw [List.map_cons, List.nodup_cons] at nodup
    unfold lookup
    rcases List.mem_cons.1 hm with same | hm
    · cases same
      exact if_pos rfl
    · have other : m ≠ n := fun same => nodup.1 (List.mem_map.2 ⟨_, hm, same.symm⟩)
      rw [if_neg other]
      exact ih hm nodup.2

/-- A directory is tidy with tidy entries. -/
theorem tidy_dir {es : List (String × Tree)} (h : TidyEntries es) (below : ∀ e ∈ es, e.2.Tidy) : (Tree.dir es).Tidy := by
  intro p fs hp
  cases p with
  | nil =>
    cases hp
    exact h
  | cons n p =>
    obtain ⟨es, child, same, found, inside⟩ := get?_cons_eq_some_iff.1 hp
    cases same
    exact below (n, child) (mem_of_lookup found) p fs inside

mutual

/-- Whether a tree is as an operating system keeps it. -/
def isTidy : Tree → Bool
  | .dir es => decide (es.map Prod.fst).Nodup && es.all (fun e => decide (Proper e.1)) &&
      es.all (fun e => decide (¬ maxNameLength < e.1.utf8ByteSize)) && areTidy es
  | _ => true

/-- Whether entries are tidy below. -/
def areTidy : List (String × Tree) → Bool
  | [] => true
  | (_, t) :: es => t.isTidy && areTidy es

end

mutual

theorem tidy_of_isTidy : (t : Tree) → t.isTidy = true → t.Tidy
  | .file content, _ => tidy_file content
  | .link target, _ => tidy_link target
  | .dir es, h => by
    rw [isTidy, Bool.and_eq_true, Bool.and_eq_true, Bool.and_eq_true, decide_eq_true_eq, List.all_eq_true,
      List.all_eq_true] at h
    obtain ⟨⟨⟨nodup, proper⟩, short⟩, below⟩ := h
    exact tidy_dir ⟨nodup, fun e he => of_decide_eq_true (proper e he), fun e he => of_decide_eq_true (short e he)⟩
      (tidy_of_areTidy es below)

theorem tidy_of_areTidy : (es : List (String × Tree)) → areTidy es = true → ∀ e ∈ es, e.2.Tidy
  | [], _ => nofun
  | (n, t) :: es, h => by
    rw [areTidy, Bool.and_eq_true] at h
    exact List.forall_mem_cons.2 ⟨tidy_of_isTidy t h.1, tidy_of_areTidy es h.2⟩

end

/-! ## The way to a file -/

/-- The names lead from a directory, one at a time, over directories that are not skipped to a file. -/
inductive Way (t : Tree) (skipped : String → Bool) : Place → List String → Prop
  | file {here p : Place} {n : String} {content : ByteArray} (proper : Proper n)
      (found : t.locate maxLinks here [n] = .ok (.found p)) (look : t.look? p = some (.file content)) :
      Way t skipped here [n]
  | dir {here p : Place} {n : String} {ns : List String} (proper : Proper n)
      (found : t.locate maxLinks here [n] = .ok (.found p)) (look : t.look? p = some .dir) (kept : skipped n = false)
      (rest : Way t skipped p ns) : Way t skipped here (n :: ns)

theorem Way.ne_nil (h : Way t skipped p ns) : ns ≠ [] := by
  cases h <;> exact List.cons_ne_nil _ _

theorem Way.proper (h : Way t skipped p ns) : ∀ n ∈ ns, Proper n := by
  induction h with
  | file proper found look => exact fun m hm => List.mem_singleton.1 hm ▸ proper
  | dir proper found look kept rest ih => exact fun m hm => (List.mem_cons.1 hm).elim (fun same => same ▸ proper) (ih m)

/-- No way goes on behind a file. -/
theorem Way.eq_of_append (h : Way t skipped p ns) (h' : Way t skipped p (ns ++ ms)) : ms = [] := by
  generalize whole : ns ++ ms = ks at h'
  induction h generalizing ks with
  | file proper found look =>
    cases h' with
    | file proper' found' look' => exact (List.cons.inj whole).2
    | dir proper' found' look' kept rest =>
      cases (List.cons.inj whole).1
      cases found.symm.trans found'
      cases look.symm.trans look'
  | dir proper found look kept rest ih =>
    cases h' with
    | file proper' found' look' =>
      exact absurd (List.append_eq_nil_iff.1 (List.cons.inj whole).2).1 rest.ne_nil
    | dir proper' found' look' kept' rest' =>
      obtain ⟨first, tail⟩ := List.cons.inj whole
      cases first
      cases found.symm.trans found'
      exact ih _ tail rest'

/-! ## Paths that lead to a directory -/

/-- The names of a path lead to a place. -/
structure Arrives (t : Tree) (path : String) (p : Place) : Prop where
  clean : Clean (pathNames path)
  leads : t.locate maxLinks [] (pathNames path) = .ok (.found p)

theorem arrives_of_found (h : t.locatePath path = .ok (.found p)) : t.Arrives path p :=
  let ⟨clean, leads⟩ := locate_pathNames h
  ⟨clean, leads⟩

theorem Grows.arrives {c : Tree} (hg : t.Grows c) (h : t.Arrives path p) : c.Arrives path p :=
  ⟨h.clean, hg.locate_found h.leads⟩

/-- What comes behind a path goes on where that leads to with the links that are left, which are as many when the tree
has grown. -/
theorem Arrives.behind {c : Tree} (h : t.Arrives path p) (hg : t.Grows c) : ∃ links, links ≤ maxLinks ∧
    ∀ ns, (∀ n ∈ ns, Proper n) → ns ≠ [] → t.locatePath (joins path ns) = t.locate links p ns ∧
      c.locatePath (joins path ns) = c.locate links p ns := by
  obtain ⟨links, fewer, goes⟩ := hg.locate_append h.leads
  refine ⟨links, fewer, fun ns proper nonempty => ?_⟩
  obtain ⟨front, n, rfl⟩ := (List.eq_nil_or_concat' ns).resolve_left nonempty
  rw [joins_eq (fun m hm => (proper m hm).toPlain) nonempty, locatePath_join t h.clean proper,
    locatePath_join c h.clean proper]
  exact goes (front ++ [n])

/-- What is found at the end of a path is found from the directory that it stands in, with as many links as there
may be. -/
theorem Arrives.locate_of_found (h : t.Arrives path p) (hn : Proper n)
    (found : t.locatePath (join path n) = .ok (.found q)) : t.locate maxLinks p [n] = .ok (.found q) := by
  obtain ⟨links, fewer, goes⟩ := h.behind (Grows.refl t)
  have here := (goes [n] (fun m hm => List.mem_singleton.1 hm ▸ hn) (List.cons_ne_nil _ _)).1
  have last : t.locate links p [n] = .error .tooManyLinks ∨ t.locate links p [n] = t.locate maxLinks p [n] :=
    Tree.locate_fewer fewer
  rcases last with spent | same
  · cases spent.symm.trans (here.symm.trans found)
  · exact same.symm.trans (here.symm.trans found)

/-- An entry that is no link is found where it is. -/
theorem locate_of_mem {es : List (String × Tree)} {u : Tree} (ht : t.Tidy) (hp : t.get? p = some (.dir es))
    (hm : (n, u) ∈ es)
    (hl : ∀ target, u ≠ .link target) :
    (∀ links, t.locate links p [n] = .ok (.found (p ++ [n]))) ∧ t.get? (p ++ [n]) = some u := by
  have tidy := ht p es hp
  have there : t.get? (p ++ [n]) = some u := by
    rw [get?_snoc hp, tidy.lookup_eq hm]
  have proper := tidy.proper _ hm
  have look : t.look? (p ++ [n]) = some u.look := by rw [look?, there]; rfl
  have other (target : String) : u.look ≠ .link target := by
    intro pointed
    cases u with
    | link target => exact hl target rfl
    | file content => cases pointed
    | dir es => cases pointed
  refine ⟨fun links => ?_, there⟩
  rw [locate_entry ⟨look?_eq_dir_iff.2 ⟨es, hp⟩, proper.here, proper.up, tidy.short _ hm⟩ look other, locate_nil]

/-- The path of an entry that is no link leads to it. -/
theorem Arrives.found_of_mem {es : List (String × Tree)} {u : Tree} (h : t.Arrives path p) (ht : t.Tidy)
    (hp : t.get? p = some (.dir es)) (hm : (n, u) ∈ es) (hl : ∀ target, u ≠ .link target) :
    t.locatePath (join path n) = .ok (.found (p ++ [n])) := by
  obtain ⟨links, -, goes⟩ := h.behind (Grows.refl t)
  have proper : ∀ m ∈ [n], Proper m := fun m hm' => List.mem_singleton.1 hm' ▸ (ht p es hp).proper _ hm
  exact (goes [n] proper (List.cons_ne_nil _ _)).1.trans ((locate_of_mem ht hp hm hl).1 links)

/-! ## What a walk lists -/

/-- What a walk lists at one entry of a directory. -/
def filesAt (t : Tree) (skipped : String → Bool) (k : Nat) (walked : List Place) (place : Place) (path : String) :
    String × Tree → List String
  | (name, .file _) => [join path name]
  | (name, .dir _) =>
    if skipped name then []
    else t.filesWithin skipped k ((place ++ [name]) :: walked) (place ++ [name]) (join path name)
  | (name, .link _) =>
    match t.locatePath (join path name) with
    | .ok (.found there) =>
      match t.get? there with
      | some (.file _) => [join path name]
      | some (.dir _) =>
        if walked.contains there || skipped name then []
        else t.filesWithin skipped k (there :: walked) there (join path name)
      | _ => []
    | _ => []

/-- A walk lists the files of one entry after the other. -/
theorem filesWithin_succ {es : List (String × Tree)} (hp : t.get? p = some (.dir es)) (k : Nat) (walked : List Place) :
    t.filesWithin skipped (k + 1) walked p path = es.flatMap (t.filesAt skipped k walked p path) := by
  unfold filesWithin
  rw [hp]
  refine congrArg (es.flatMap ·) (funext fun e => ?_)
  obtain ⟨name, u⟩ := e
  cases u <;> rfl

/-- In what is no directory nothing is listed. -/
theorem filesWithin_of_not_dir {k : Nat} {walked : List Place} (h : t.look? p ≠ some .dir) :
    t.filesWithin skipped k walked p path = [] := by
  cases k with
  | zero => rfl
  | succ k =>
    unfold filesWithin
    split
    · rename_i es hes
      exact absurd (look?_eq_dir_iff.2 ⟨es, hes⟩) h
    · rfl

/-- What a walk lists at an entry it has found on a way that begins with the entry's name. -/
theorem exists_way_of_mem_filesAt (ht : t.Tidy) (arrives : t.Arrives path p) {es : List (String × Tree)}
    (hp : t.get? p = some (.dir es)) {k : Nat} {walked : List Place} {u : Tree} (hm : (n, u) ∈ es)
    (h : file ∈ t.filesAt skipped k walked p path (n, u))
    (deeper : ∀ walked p path, t.Arrives path p → file ∈ t.filesWithin skipped k walked p path →
      ∃ ns, file = joins path ns ∧ Way t skipped p ns ∧ t.isFile file = true) :
    ∃ ns, file = joins path (n :: ns) ∧ Way t skipped p (n :: ns) ∧ t.isFile file = true := by
  have proper := (ht p es hp).proper _ hm
  cases u with
  | file content =>
    obtain ⟨found, there⟩ := locate_of_mem ht hp hm nofun
    have look := look?_eq_file_iff.2 there
    refine ⟨[], List.mem_singleton.1 h, .file proper (found _) look, ?_⟩
    rw [List.mem_singleton.1 h, isFile_eq]
    exact ⟨_, content, arrives.found_of_mem ht hp hm nofun, look⟩
  | dir fs =>
    obtain ⟨found, there⟩ := locate_of_mem ht hp hm nofun
    rw [filesAt] at h
    split at h
    · cases h
    · rename_i kept
      obtain ⟨ns, name, way, read⟩ := deeper _ _ _ (arrives_of_found (arrives.found_of_mem ht hp hm nofun)) h
      exact ⟨ns, name, .dir proper (found _) (look?_eq_dir_iff.2 ⟨fs, there⟩) (Bool.eq_false_iff.2 kept) way, read⟩
  | link target =>
    rw [filesAt] at h
    split at h
    · rename_i there leads
      have found := arrives.locate_of_found proper leads
      split at h
      · rename_i content look
        refine ⟨[], List.mem_singleton.1 h, .file proper found (look?_eq_file_iff.2 look), ?_⟩
        rw [List.mem_singleton.1 h, isFile_eq]
        exact ⟨there, content, leads, look?_eq_file_iff.2 look⟩
      · rename_i fs look
        split at h
        · cases h
        · rename_i kept
          rw [Bool.or_eq_true, not_or] at kept
          obtain ⟨ns, name, way, read⟩ := deeper _ _ _ (arrives_of_found leads) h
          exact ⟨ns, name, .dir proper found (look?_eq_dir_iff.2 ⟨fs, look⟩) (Bool.eq_false_iff.2 kept.2) way, read⟩
      · cases h
    · cases h

/-- What a walk lists it has found on a way, and its path leads to it. -/
theorem exists_way_of_mem_filesWithin (ht : t.Tidy) (arrives : t.Arrives path p) {k : Nat} {walked : List Place}
    (h : file ∈ t.filesWithin skipped k walked p path) :
    ∃ ns, file = joins path ns ∧ Way t skipped p ns ∧ t.isFile file = true := by
  induction k generalizing walked p path with
  | zero => cases h
  | succ k ih =>
    by_cases hp : t.look? p = some .dir
    · obtain ⟨es, hes⟩ := look?_eq_dir_iff.1 hp
      rw [filesWithin_succ hes] at h
      obtain ⟨⟨n, u⟩, hm, inside⟩ := List.mem_flatMap.1 h
      obtain ⟨ns, found⟩ := exists_way_of_mem_filesAt ht arrives hes hm inside fun _ _ _ leads => ih leads
      exact ⟨n :: ns, found⟩
    · rw [filesWithin_of_not_dir hp] at h
      cases h

/-- What a walk from a path lists. -/
theorem exists_way_of_mem_filesBelow (ht : t.Tidy) (h : file ∈ t.filesBelow skipped path) :
    ∃ p ns, t.locatePath path = .ok (.found p) ∧ t.look? p = some .dir ∧ file = joins path ns ∧ Way t skipped p ns ∧
      t.isFile file = true := by
  unfold filesBelow at h
  split at h
  · rename_i p found
    obtain ⟨ns, name, way, read⟩ := exists_way_of_mem_filesWithin ht (arrives_of_found found) h
    have there : t.look? p = some .dir := by
      cases way with
      | file proper found' look => exact locate_step_dir found'
      | dir proper found' look kept rest => exact locate_step_dir found'
    exact ⟨p, ns, found, there, name, way, read⟩
  · cases h

/-! ## Without links -/

/-- Behind a name that is no link names lead on from the place with that name. -/
theorem locate_of_proper {links : Nat} (hn : Proper n) (other : ∀ target, t.look? (p ++ [n]) ≠ some (.link target))
    (found : t.locate links p (n :: ns) = .ok (.found q)) : t.locate links (p ++ [n]) ns = .ok (.found q) := by
  obtain ⟨k, here, front, s, found⟩ := advances_of_found found
  cases s with
  | stay dir => exact absurd rfl hn.here
  | up dir => exact absurd rfl hn.up
  | link enters look => exact absurd look (other _)
  | entry enters look plain => exact found

/-- What is no link is found where it is. -/
theorem found_eq_snoc {links : Nat} (hn : Proper n) (other : ∀ target, t.look? (p ++ [n]) ≠ some (.link target))
    (found : t.locate links p [n] = .ok (.found q)) : q = p ++ [n] := by
  have here := locate_of_proper hn other found
  rw [locate_nil] at here
  cases here
  rfl

/-- Where there are no links names lead to the place below with these names. -/
theorem eq_append_of_found {links : Nat} (proper : ∀ n ∈ ns, Proper n) (free : t.LinkFree p)
    (found : t.locate links p ns = .ok (.found q)) : q = p ++ ns := by
  induction ns generalizing p with
  | nil =>
    rw [locate_nil] at found
    cases found
    exact (List.append_nil _).symm
  | cons n ns ih =>
    rw [List.append_cons]
    exact ih (fun m hm => proper m (List.mem_cons_of_mem _ hm)) (free.below [n])
      (locate_of_proper (proper n List.mem_cons_self) (free [n]) found)

/-- Where there are no links a way leads to what is at the places below. -/
theorem Way.look? (h : Way t skipped p ns) (free : t.LinkFree p) : (∃ content, t.look? (p ++ ns) = some (.file content)) ∧
    ∀ n ∈ ns.dropLast, skipped n = false := by
  induction h with
  | @file here q n content proper found look =>
    rw [eq_append_of_found (fun m hm => List.mem_singleton.1 hm ▸ proper) free found] at look
    exact ⟨⟨content, look⟩, nofun⟩
  | @dir here q n ns proper found look kept rest ih =>
    have place := eq_append_of_found (fun m hm => List.mem_singleton.1 hm ▸ proper) free found
    subst place
    obtain ⟨file, others⟩ := ih (free.below [n])
    rw [List.append_cons]
    refine ⟨file, fun m hm => ?_⟩
    rw [List.dropLast_cons_of_ne_nil rest.ne_nil] at hm
    exact (List.mem_cons.1 hm).elim (fun same => same ▸ kept) (others m)

/-- Where there are no links all that is at a place below is listed. -/
theorem mem_filesWithin {k : Nat} {walked : List Place} {content : ByteArray} (hk : ns.length ≤ k) (hn : ns ≠ [])
    (look : t.look? (p ++ ns) = some (.file content)) (kept : ∀ n ∈ ns.dropLast, skipped n = false) :
    joins path ns ∈ t.filesWithin skipped k walked p path := by
  -- each name leads one directory deeper, and the bound of the walk is not smaller than the number of names
  induction ns generalizing k walked p path with
  | nil => exact absurd rfl hn
  | cons n ns ih =>
    obtain ⟨k, rfl⟩ : ∃ j, k = j + 1 := ⟨k - 1, by rw [List.length_cons] at hk; omega⟩
    have above : t.look? (p ++ n :: ns) ≠ none := by rw [look]; exact Option.some_ne_none _
    obtain ⟨es, hp⟩ := look?_eq_dir_iff.1 (look?_of_append above (List.cons_ne_nil _ _))
    rw [filesWithin_succ hp]
    refine List.mem_flatMap.2 ?_
    rw [List.append_cons] at look above
    cases hu : lookup n es with
    | none =>
      have nothing : t.get? (p ++ [n]) = none := by rw [get?_snoc hp, hu]
      rw [Tree.look?, get?_append, nothing] at look
      cases look
    | some u =>
      have here : t.get? (p ++ [n]) = some u := by rw [get?_snoc hp, hu]
      refine ⟨(n, u), mem_of_lookup hu, ?_⟩
      cases ns with
      | nil =>
        rw [List.append_nil, look?_eq_file_iff, here] at look
        cases look
        exact List.mem_singleton_self _
      | cons m ns =>
        obtain ⟨fs, dir⟩ := look?_eq_dir_iff.1 (look?_of_append above (List.cons_ne_nil _ _))
        rw [here] at dir
        cases dir
        rw [filesAt, kept n List.mem_cons_self]
        refine ih ?_ (List.cons_ne_nil _ _) look fun x hx => kept x (List.mem_cons_of_mem _ hx)
        rw [List.length_cons] at hk
        omega

/-- An entry is not larger than all entries together. -/
theorem size_le_sizeAll {es : List (String × Tree)} {u : Tree} (h : (n, u) ∈ es) : u.size ≤ sizeAll es := by
  induction es with
  | nil => cases h
  | cons e es ih =>
    obtain ⟨m, v⟩ := e
    show u.size ≤ v.size + sizeAll es
    rcases List.mem_cons.1 h with same | h
    · cases same
      exact Nat.le_add_right _ _
    · exact Nat.le_trans (ih h) (Nat.le_add_left _ _)

/-- The way to a place is shorter than the tree is large. -/
theorem length_lt_size {u : Tree} (h : t.get? p = some u) : p.length < t.size := by
  induction p generalizing t with
  | nil => cases t <;> simp only [size, List.length_nil] <;> omega
  | cons n p ih =>
    obtain ⟨es, child, rfl, found, inside⟩ := get?_cons_eq_some_iff.1 h
    have deeper := ih inside
    have bound := size_le_sizeAll (mem_of_lookup found)
    show p.length + 1 < 1 + sizeAll es
    omega

/-- What a walk from a path lists where there are no links. -/
theorem mem_filesBelow_iff (ht : t.Tidy) (found : t.locatePath path = .ok (.found p)) (free : t.LinkFree p) :
    file ∈ t.filesBelow skipped path ↔ ∃ ns, ns ≠ [] ∧ (∀ n ∈ ns, Proper n) ∧ file = joins path ns ∧
      (∃ content, t.look? (p ++ ns) = some (.file content)) ∧ ∀ n ∈ ns.dropLast, skipped n = false := by
  unfold filesBelow
  rw [found]
  constructor
  · intro h
    obtain ⟨ns, name, way, -⟩ := exists_way_of_mem_filesWithin ht (arrives_of_found found) h
    obtain ⟨look, kept⟩ := way.look? free
    exact ⟨ns, way.ne_nil, way.proper, name, look, kept⟩
  · rintro ⟨ns, hn, -, rfl, ⟨content, look⟩, kept⟩
    refine mem_filesWithin ?_ hn look kept
    have long := length_lt_size (look?_eq_file_iff.1 look)
    rw [List.length_append] at long
    have square : t.size + 1 ≤ (t.size + 1) * (t.size + 1) := Nat.le_mul_of_pos_left _ (Nat.succ_pos _)
    omega

/-! ## Names of what is listed -/

/-- Names that are joined to a path come behind its own. -/
theorem pathNames_joins (path : String) (hn : ∀ m ∈ ns, Proper m) : pathNames (joins path ns) = pathNames path ++ ns := by
  have plain : ∀ m ∈ ns, Plain m := fun m hm => (hn m hm).toPlain
  by_cases none : ns = []
  · rw [none, List.append_nil]
    rfl
  · rw [joins_eq plain none, pathNames_join _ (isAbsolute_joined plain), pathNames_joined plain]

/-- A walk lists no file of an entry twice. -/
theorem nodup_filesAt {k : Nat} {walked : List Place}
    (deeper : ∀ walked p path, t.Arrives path p → (t.filesWithin skipped k walked p path).Nodup) (ht : t.Tidy)
    (arrives : t.Arrives path p) {es : List (String × Tree)} (hp : t.get? p = some (.dir es)) {e : String × Tree}
    (he : e ∈ es) : (t.filesAt skipped k walked p path e).Nodup := by
  obtain ⟨n, u⟩ := e
  cases u with
  | file content => exact List.nodup_singleton _
  | dir fs =>
    rw [filesAt]
    split
    · exact List.nodup_nil
    · exact deeper _ _ _ (arrives_of_found (arrives.found_of_mem ht hp he nofun))
  | link target =>
    rw [filesAt]
    split
    · rename_i leads
      split
      · exact List.nodup_singleton _
      · split
        · exact List.nodup_nil
        · exact deeper _ _ _ (arrives_of_found leads)
      · exact List.nodup_nil
    · exact List.nodup_nil

/-- Nothing is listed twice. -/
theorem nodup_filesWithin (ht : t.Tidy) {k : Nat} {walked : List Place} (arrives : t.Arrives path p) :
    (t.filesWithin skipped k walked p path).Nodup := by
  induction k generalizing walked p path with
  | zero => exact List.nodup_nil
  | succ k ih =>
    by_cases hp : t.look? p = some .dir
    · obtain ⟨es, hes⟩ := look?_eq_dir_iff.1 hp
      rw [filesWithin_succ hes, List.nodup_flatMap]
      refine ⟨fun e he => nodup_filesAt (fun _ _ _ leads => ih leads) ht arrives hes he, ?_⟩
      refine List.Pairwise.imp_of_mem ?_ (List.pairwise_map.1 (ht p es hes).nodup)
      rintro ⟨n, u⟩ ⟨m, v⟩ hn hm other file first second
      obtain ⟨ns, name, way, -⟩ := exists_way_of_mem_filesAt ht arrives hes hn first
        fun _ _ _ leads => exists_way_of_mem_filesWithin ht leads
      obtain ⟨ms, name', way', -⟩ := exists_way_of_mem_filesAt ht arrives hes hm second
        fun _ _ _ leads => exists_way_of_mem_filesWithin ht leads
      have same := joins_inj way.proper way'.proper (name.symm.trans name')
      exact other (List.cons.inj same).1
    · rw [filesWithin_of_not_dir hp]
      exact List.nodup_nil

/-- A walk lists no file twice. -/
theorem nodup_filesBelow (ht : t.Tidy) (path : String) : (t.filesBelow skipped path).Nodup := by
  unfold filesBelow
  split
  · rename_i found
    exact nodup_filesWithin ht (arrives_of_found found)
  · exact List.nodup_nil

end InPlace.Files.Tree

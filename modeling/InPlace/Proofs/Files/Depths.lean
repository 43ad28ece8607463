import InPlace.Proofs.Files.Walking

/-!
# How deep a walk goes

A walk through a tree ends by itself, before its bound is reached: a link leads on to directories only that are not being
walked, so it is followed at most once for each place in the tree, and between two links the walk goes deeper with each
step. Therefore a walk lists the same with any larger bound.

Main statement: `filesBelow_eq_map`.
-/

namespace InPlace.Files.Tree

open Text.Path (join)

variable {t u : Tree} {p q : Place} {n path : String} {skipped : String → Bool} {walked unseen : List Place} {k : Nat}

/-! ## Walks by names -/

/-- The names of the entries of a directory. -/
def entryNames (t : Tree) (p : Place) : List String :=
  match t.get? p with
  | some (.dir es) => es.map Prod.fst
  | _ => []

/-- The place that a path leads to, if it leads to one. -/
def placeOf? : Except OsError Located → Option Place
  | .ok (.found p) => some p
  | _ => none

/-- Where a walk that has come to `p` by a path comes to at an entry: to the entry, or to what it leads to if it is a
link. -/
def comesTo? (t : Tree) (path : String) (p : Place) (n : String) : Option Place :=
  match t.look? (p ++ [n]) with
  | none => none
  | some (.link _) => placeOf? (t.locatePath (join path n))
  | some _ => some (p ++ [n])

/-- The names that a walk goes by from an entry on. -/
def namesFrom (t : Tree) (skipped : String → Bool) (further : List Place → Place → String → List (List String))
    (walked : List Place) (p : Place) (path n : String) : List (List String) :=
  match t.comesTo? path p n with
  | some q =>
    match t.look? q with
    | some (.file _) => [[n]]
    | some .dir =>
      if (t.look? (p ++ [n]) ≠ some .dir ∧ q ∈ walked) ∨ skipped n then []
      else (further (q :: walked) q (join path n)).map (n :: ·)
    | _ => []
  | none => []

/-- The names that a walk goes by to each of the files that it lists. -/
def namesWithin (t : Tree) (skipped : String → Bool) : Nat → List Place → Place → String → List (List String)
  | 0, _, _, _ => []
  | k + 1, walked, p, path => (t.entryNames p).flatMap (t.namesFrom skipped (t.namesWithin skipped k) walked p path)

theorem placeOf?_eq_some {l : Except OsError Located} : placeOf? l = some p ↔ l = .ok (.found p) := by
  unfold placeOf?
  split
  · rw [Option.some_inj, Except.ok.injEq, Located.found.injEq]
  · rename_i other
    exact iff_of_false nofun (other p)

/-- An entry is what stands below a place by one name. -/
theorem mem_entryNames : n ∈ t.entryNames p ↔ t.look? (p ++ [n]) ≠ none := by
  have listed (es : List (String × Tree)) : n ∈ es.map Prod.fst ↔ lookup n es ≠ none := by
    induction es with
    | nil => simp [lookup]
    | cons e es ih =>
      obtain ⟨m, v⟩ := e
      rw [List.map_cons, List.mem_cons, ih, lookup]
      by_cases same : m = n
      · simp [same]
      · simp [same, Ne.symm same]
  unfold entryNames
  cases hp : t.get? p with
  | none => simp [look?, get?_append, hp]
  | some u =>
    cases u with
    | dir es =>
      show n ∈ es.map Prod.fst ↔ _
      rw [listed, look?, get?_snoc hp, ne_eq, ne_eq, Option.map_eq_none_iff]
    | file content => simp [look?, get?_append, hp, get?]
    | link target => simp [look?, get?_append, hp, get?]

/-- The names of entries are names as an operating system keeps them. -/
theorem Tidy.proper (ht : t.Tidy) (h : n ∈ t.entryNames p) : Proper n := by
  unfold entryNames at h
  split at h
  · rename_i es hes
    obtain ⟨e, he, rfl⟩ := List.mem_map.1 h
    exact (ht p es hes).proper e he
  · cases h

theorem look?_snoc_of_mem {es : List (String × Tree)} (ht : t.Tidy) (hes : t.get? p = some (.dir es))
    (he : (n, u) ∈ es) : t.look? (p ++ [n]) = some u.look := by
  rw [look?, get?_snoc hes, (ht p es hes).lookup_eq he]
  rfl

theorem comesTo?_of_link {target : String} (look : t.look? (p ++ [n]) = some (.link target)) :
    t.comesTo? path p n = placeOf? (t.locatePath (join path n)) := by
  rw [comesTo?, look]

/-- An entry that is no link is where it stands. -/
theorem comesTo?_of_other {l : Look} (look : t.look? (p ++ [n]) = some l) (other : ∀ target, l ≠ .link target) :
    t.comesTo? path p n = some (p ++ [n]) := by
  rw [comesTo?, look]
  cases l with
  | link target => exact absurd rfl (other target)
  | dir => rfl
  | file content => rfl

/-- Where a walk comes to at an entry the path of the entry leads. -/
theorem Arrives.locatePath_join (h : t.Arrives path p) (ht : t.Tidy) (came : t.comesTo? path p n = some q) :
    t.locatePath (join path n) = .ok (.found q) := by
  unfold comesTo? at came
  split at came
  · cases came
  · exact placeOf?_eq_some.1 came
  · rename_i l other there
    cases came
    have listed : n ∈ t.entryNames p := mem_entryNames.2 (there ▸ Option.some_ne_none _)
    obtain ⟨es, hes⟩ := look?_eq_dir_iff.1 (look?_of_append (there ▸ Option.some_ne_none _) (List.cons_ne_nil n []))
    rw [entryNames, hes] at listed
    obtain ⟨⟨m, v⟩, he, rfl⟩ := List.mem_map.1 listed
    refine h.found_of_mem ht hes he fun target same => other target ?_
    subst same
    exact Option.some.inj (there.symm.trans (look?_snoc_of_mem ht hes he))

/-- Where a walk comes to at an entry it is led from the directory around that. -/
theorem Arrives.locate_entry (h : t.Arrives path p) (ht : t.Tidy) (hn : Proper n)
    (came : t.comesTo? path p n = some q) : t.locate maxLinks p [n] = .ok (.found q) :=
  h.locate_of_found hn (h.locatePath_join ht came)

/-- A walk that comes to another directory has a path that leads there. -/
theorem Arrives.step (h : t.Arrives path p) (ht : t.Tidy) (came : t.comesTo? path p n = some q) :
    t.Arrives (join path n) q :=
  arrives_of_found (h.locatePath_join ht came)

/-- Walks that go on alike from the directories that an entry leads to list the same there. -/
theorem namesFrom_congr {further further' : List Place → Place → String → List (List String)}
    (h : ∀ q, t.comesTo? path p n = some q → t.look? q = some .dir → (t.look? (p ++ [n]) ≠ some .dir → q ∉ walked) →
      further (q :: walked) q (join path n) = further' (q :: walked) q (join path n)) :
    t.namesFrom skipped further walked p path n = t.namesFrom skipped further' walked p path n := by
  unfold namesFrom
  cases came : t.comesTo? path p n with
  | none => rfl
  | some q =>
    dsimp only
    cases hq : t.look? q with
    | none => rfl
    | some l =>
      cases l with
      | file content => rfl
      | link target => rfl
      | dir =>
        dsimp only
        split
        · rfl
        · rename_i fresh
          rw [not_or, not_and] at fresh
          rw [h q came hq fresh.1]

/-- A walk finds nothing where no directory is. -/
theorem namesWithin_of_not_dir (h : t.look? p ≠ some .dir) : t.namesWithin skipped k walked p path = [] := by
  cases k with
  | zero => rfl
  | succ k =>
    unfold namesWithin entryNames
    split
    · rename_i es hes
      exact absurd (look?_eq_dir_iff.2 ⟨es, hes⟩) h
    · rfl

/-- A walk goes by the name of an entry to the file that it leads to, or on from the directory. -/
theorem mem_namesFrom_iff {further : List Place → Place → String → List (List String)} {ns : List String} :
    ns ∈ t.namesFrom skipped further walked p path n ↔ ∃ q ms, t.comesTo? path p n = some q ∧ ns = n :: ms ∧
      ((∃ content, t.look? q = some (.file content)) ∧ ms = [] ∨
        t.look? q = some .dir ∧ (t.look? (p ++ [n]) ≠ some .dir → q ∉ walked) ∧ skipped n = false ∧
          ms ∈ further (q :: walked) q (join path n)) := by
  constructor
  · intro h
    unfold namesFrom at h
    split at h
    · rename_i q came
      split at h
      · rename_i content look
        exact ⟨q, [], came, List.mem_singleton.1 h, .inl ⟨⟨content, look⟩, rfl⟩⟩
      · rename_i look
        split at h
        · cases h
        · rename_i kept
          obtain ⟨ms, hms, rfl⟩ := List.mem_map.1 h
          rw [not_or, not_and] at kept
          exact ⟨q, ms, came, rfl, .inr ⟨look, kept.1, Bool.eq_false_iff.2 kept.2, hms⟩⟩
      · cases h
    · cases h
  · rintro ⟨q, ms, came, rfl, ⟨⟨content, look⟩, rfl⟩ | ⟨look, fresh, kept, inside⟩⟩
    · simp only [namesFrom, came, look, List.mem_singleton]
    · have entered : ¬ ((t.look? (p ++ [n]) ≠ some .dir ∧ q ∈ walked) ∨ skipped n = true) := by
        rw [not_or, not_and]
        exact ⟨fresh, Bool.eq_false_iff.1 kept⟩
      simp only [namesFrom, came, look, if_neg entered]
      exact List.mem_map_of_mem inside

/-- The names that a walk goes by are the way to a file. -/
theorem way_of_mem_namesWithin (ht : t.Tidy) (arrives : t.Arrives path p) {ns : List String}
    (h : ns ∈ t.namesWithin skipped k walked p path) : Way t skipped p ns := by
  induction k generalizing walked p path ns with
  | zero => cases h
  | succ k ih =>
    obtain ⟨n, hn, inside⟩ := List.mem_flatMap.1 h
    obtain ⟨q, ms, came, rfl, ⟨⟨content, look⟩, rfl⟩ | ⟨look, -, kept, rest⟩⟩ := mem_namesFrom_iff.1 inside
    · exact .file (ht.proper hn) (arrives.locate_entry ht (ht.proper hn) came) look
    · exact .dir (ht.proper hn) (arrives.locate_entry ht (ht.proper hn) came) look kept (ih (arrives.step ht came) rest)

/-- A walk lists at an entry what it goes by from there, if it does so in the directories that the entry leads to. -/
theorem filesAt_eq_map (ht : t.Tidy) {es : List (String × Tree)} (hes : t.get? p = some (.dir es)) {e : String × Tree}
    (he : e ∈ es) (deeper : ∀ walked q path, t.look? q = some .dir →
      t.filesWithin skipped k walked q path = (t.namesWithin skipped k walked q path).map (joins path)) :
    t.filesAt skipped k walked p path e =
      (t.namesFrom skipped (t.namesWithin skipped k) walked p path e.1).map (joins path) := by
  obtain ⟨n, v⟩ := e
  have there := look?_snoc_of_mem ht hes he
  cases v with
  | file content =>
    have there : t.look? (p ++ [n]) = some (.file content) := there
    rw [filesAt, namesFrom, comesTo?_of_other there (Look.file_ne_link content)]
    dsimp only
    rw [there]
    rfl
  | dir fs =>
    have there : t.look? (p ++ [n]) = some .dir := there
    rw [filesAt, namesFrom, comesTo?_of_other there Look.dir_ne_link]
    dsimp only
    rw [there]
    dsimp only
    cases skipped n with
    | true => simp
    | false =>
      simp only [ne_eq, not_true, false_and, Bool.false_eq_true, or_false, if_false]
      rw [deeper _ _ _ there, List.map_map]
      rfl
  -- a link is no directory, so what it leads to is asked whether it is being walked
  | link target =>
    have there : t.look? (p ++ [n]) = some (.link target) := there
    have noDir : t.look? (p ++ [n]) ≠ some .dir := fun dir =>
      Look.dir_ne_link target (Option.some.inj (dir.symm.trans there))
    rw [filesAt, namesFrom, comesTo?_of_link there]
    cases t.locatePath (join path n) with
    | error e => rfl
    | ok l =>
      cases l with
      | absent parent name => rfl
      | found q =>
        dsimp only [placeOf?]
        rw [look?]
        cases hd : t.get? q with
        | none => rfl
        | some v =>
          cases v with
          | file content => rfl
          | link target => rfl
          | dir fs =>
            simp only [Option.map_some, look, Bool.or_eq_true, List.contains_iff_mem, ne_eq, noDir, not_false_eq_true,
              true_and]
            split
            · rfl
            · rw [deeper _ _ _ (look?_eq_dir_iff.2 ⟨fs, hd⟩), List.map_map]
              rfl

/-- The files that a walk lists are those with the names on its ways. -/
theorem filesWithin_eq_map (ht : t.Tidy) (hp : t.look? p = some .dir) :
    t.filesWithin skipped k walked p path = (t.namesWithin skipped k walked p path).map (joins path) := by
  induction k generalizing walked p path with
  | zero => rfl
  | succ k ih =>
    obtain ⟨es, hes⟩ := look?_eq_dir_iff.1 hp
    rw [filesWithin_succ hes, namesWithin, entryNames, hes, List.map_flatMap, List.flatMap_map]
    exact List.flatMap_congr fun e he => filesAt_eq_map ht hes he fun _ _ _ => ih

/-! ## Places -/

mutual

/-- The places in a tree. -/
def places : Tree → List Place
  | .dir es => [] :: placesAmong es
  | _ => [[]]

/-- The places below entries. -/
def placesAmong : List (String × Tree) → List Place
  | [] => []
  | (n, t) :: es => t.places.map (n :: ·) ++ placesAmong es

end

mutual

theorem length_places : (t : Tree) → t.places.length = t.size
  | .file _ => rfl
  | .link _ => rfl
  | .dir es => by
    rw [places, size, List.length_cons, length_placesAmong es, Nat.add_comm]

theorem length_placesAmong : (es : List (String × Tree)) → (placesAmong es).length = sizeAll es
  | [] => rfl
  | (n, t) :: es => by
    rw [placesAmong, sizeAll, List.length_append, List.length_map, length_places t, length_placesAmong es]

end

theorem mem_placesAmong {es : List (String × Tree)} (hm : (n, u) ∈ es) (hq : q ∈ u.places) : n :: q ∈ placesAmong es := by
  induction es with
  | nil => cases hm
  | cons e es ih =>
    obtain ⟨m, v⟩ := e
    rw [placesAmong]
    rcases List.mem_cons.1 hm with same | hm
    · cases same
      exact List.mem_append_left _ (List.mem_map_of_mem hq)
    · exact List.mem_append_right _ (ih hm)

/-- Where something is there is a place. -/
theorem mem_places (h : t.get? p = some u) : p ∈ t.places := by
  induction p generalizing t with
  | nil => cases t <;> exact List.mem_cons_self
  | cons n p ih =>
    obtain ⟨es, child, rfl, found, inside⟩ := get?_cons_eq_some_iff.1 h
    exact List.mem_cons_of_mem _ (mem_placesAmong (mem_of_lookup found) (ih inside))

/-! ## Bounds -/

/-- A bound that leaves the depth of the tree for each directory that is not being walked need not be larger. -/
theorem namesWithin_stable (hp : t.look? p = some .dir) (hu : ∀ q, t.look? q = some .dir → q ∉ walked → q ∈ unseen)
    (hk : unseen.length * t.size + (t.size - p.length) ≤ k) :
    t.namesWithin skipped (k + 1) walked p path = t.namesWithin skipped k walked p path := by
  induction k generalizing unseen walked p path with
  | zero =>
    obtain ⟨es, hes⟩ := look?_eq_dir_iff.1 hp
    have inside := length_lt_size hes
    omega
  | succ k ih =>
    obtain ⟨es, hes⟩ := look?_eq_dir_iff.1 hp
    have inside := length_lt_size hes
    refine List.flatMap_congr fun n hn => namesFrom_congr fun q came hq fresh => ?_
    by_cases dir : t.look? (p ++ [n]) = some .dir
    · have deeper : p ++ [n] = q := Option.some.inj ((comesTo?_of_other dir nofun).symm.trans came)
      refine @ih _ _ _ unseen hq (fun m hm other => hu m hm fun within => other (List.mem_cons_of_mem _ within)) ?_
      rw [← deeper, List.length_append, List.length_singleton]
      omega
    · -- one directory fewer is left, so the tree may be as deep again
      have listed := hu q hq (fresh dir)
      have fewer : (unseen.erase q).length * t.size + t.size = unseen.length * t.size := by
        rw [← List.length_erase_add_one listed, Nat.succ_mul]
      refine @ih _ _ _ (unseen.erase q) hq (fun m hm other => ?_) (by omega)
      rw [List.mem_cons, not_or] at other
      exact (List.mem_erase_of_ne other.1).2 (hu m hm other.2)

/-- What a walk lists from a path, with a bound as large as that of a walk. -/
theorem filesBelow_eq_map (ht : t.Tidy) (found : t.locatePath path = .ok (.found p))
    (hk : (t.size + 1) * (t.size + 1) ≤ k) :
    t.filesBelow skipped path = (t.namesWithin skipped k [p] p path).map (joins path) := by
  have enough {k : Nat} (hk : (t.size + 1) * (t.size + 1) ≤ k) : t.places.length * t.size + (t.size - p.length) ≤ k := by
    rw [length_places]
    rw [Nat.succ_mul, Nat.mul_succ] at hk
    omega
  have seen (q : Place) (hq : t.look? q = some .dir) (_ : q ∉ [p]) : q ∈ t.places := by
    obtain ⟨es, hes⟩ := look?_eq_dir_iff.1 hq
    exact mem_places hes
  rw [filesBelow, found]
  by_cases hp : t.look? p = some .dir
  · induction k, hk using Nat.le_induction with
    | base => exact filesWithin_eq_map ht hp
    | succ k hk ih => rw [namesWithin_stable hp seen (enough hk), ← ih]
  · rw [namesWithin_of_not_dir hp]
    exact filesWithin_of_not_dir hp

end InPlace.Files.Tree

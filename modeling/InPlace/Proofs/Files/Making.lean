import InPlace.Proofs.Files.Locating
import InPlace.Proofs.Files.Paths

/-!
# Directories that are made

A directory is made with those above it, from below: first itself, and those above only if one of them is missing. This
comes to the same as from the top: each one in its turn is made or kept, and after the first that can be neither
nothing happens.

Main statements: `makeAll_above_snoc`, `leadsTo_of_makeAll` and `makeAll_makeAll`.
-/

namespace InPlace.Files.Tree

open Text.Path (isAbsolute)

variable {t c : Tree} {p q : Place} {n : String} {ns : List String}

/-- The names lead from the top to a directory. -/
structure LeadsTo (t : Tree) (names : List String) (p : Place) : Prop where
  found : t.locate maxLinks [] names = .ok (.found p)
  dir : t.look? p = some .dir

theorem LeadsTo.unique (h : t.LeadsTo ns p) (h' : t.LeadsTo ns q) : p = q := by
  have same := h.found.symm.trans h'.found
  cases same
  rfl

theorem Grows.leadsTo (hg : t.Grows c) (h : t.LeadsTo ns p) : c.LeadsTo ns p :=
  ⟨hg.locate_found h.found, hg.dir p h.dir⟩

/-- Single dots do not matter on the way to a directory. -/
theorem LeadsTo.dotted {path : String} (h : t.LeadsTo (plainNames path ++ ns) p) : t.LeadsTo (pathNames path ++ ns) p :=
  ⟨locate_dotted h.dir ((dotted_filter _).append ns) h.found, h.dir⟩

/-- Above a directory there is a directory. -/
theorem LeadsTo.up (h : t.LeadsTo (ns ++ [n]) p) : ∃ q, t.LeadsTo ns q := by
  obtain ⟨q, hq⟩ := found_of_locate_append (List.cons_ne_nil _ _) h.found
  obtain ⟨links, -, goes⟩ := locate_append hq
  exact ⟨q, hq, locate_step_dir ((goes [n]).symm.trans h.found)⟩

/-! ## Texts and names -/

/-- No name holds a zero. -/
def Clean (names : List String) : Prop :=
  ∀ n ∈ names, '\x00' ∉ n.toList

instance (names : List String) : Decidable (Clean names) :=
  inferInstanceAs (Decidable (∀ n ∈ names, '\x00' ∉ n.toList))

theorem contains_zero (path : String) : path.toList.contains '\x00' = true ↔ ¬ Clean (pathNames path) := by
  rw [List.contains_iff_mem, mem_namesIn (by decide), ← pathNames_eq, Clean]
  simp

/-- A path holds a zero byte if a name on it does. -/
theorem clean_pathNames {path : String} : Clean (pathNames path) ↔ Clean (plainNames path) := by
  constructor
  · exact fun h n hn => h n (List.mem_filter.1 hn).1
  · intro h n hn
    by_cases here : n = "."
    · rw [here]
      decide
    · exact h n (List.mem_filter.2 ⟨hn, decide_eq_true here⟩)

theorem fromTop_isEmpty (names : List String) : (fromTop names).isEmpty = false := by
  rw [Bool.eq_false_iff]
  intro empty
  have none := congrArg String.toList (String.isEmpty_iff.1 empty)
  rw [fromTop, String.toList_append] at none
  cases none

/-- An absolute path leads where its names lead from the top. -/
theorem locatePath_fromTop (hp : ∀ n ∈ ns, Plain n) (hc : Clean ns) (hn : ns ≠ []) :
    t.locatePath (fromTop ns) = t.locate maxLinks [] ns := by
  have slash : Text.Path.endsInSlash (fromTop ns) = false := by
    obtain ⟨front, name, rfl⟩ := (List.eq_nil_or_concat' ns).resolve_left hn
    have last := hp name (List.mem_append_right _ List.mem_cons_self)
    by_cases one : front = []
    · rw [one, List.nil_append, fromTop, joined_singleton]
      exact last.endsInSlash_eq _
    · rw [fromTop, joined_snoc one, ← String.append_assoc]
      exact last.endsInSlash_eq _
  have zero : (fromTop ns).toList.contains '\x00' = false := by
    rw [Bool.eq_false_iff]
    rw [ne_eq, contains_zero, pathNames_fromTop hp]
    exact fun h => h hc
  rw [locatePath, zero, fromTop_isEmpty, pathSteps, slash, pathNames_fromTop hp]
  rfl

/-- A path that leads somewhere leads there by its names. -/
theorem locate_pathNames {path : String} (found : t.locatePath path = .ok (.found p)) :
    Clean (pathNames path) ∧ t.locate maxLinks [] (pathNames path) = .ok (.found p) := by
  obtain ⟨zero, -, leads⟩ := locatePath_eq_ok_iff.1 found
  refine ⟨not_not.1 fun unclean => Bool.eq_false_iff.1 zero ((contains_zero path).2 unclean), ?_⟩
  rw [pathSteps] at leads
  split at leads
  · obtain ⟨q, hq⟩ := found_of_locate_append (List.cons_ne_nil _ _) leads
    obtain ⟨links, -, goes⟩ := locate_append hq
    rw [goes ["."]] at leads
    have inside := locate_step_dir leads
    rw [locate_stay inside, locate_nil] at leads
    cases leads
    exact hq
  · exact leads

/-- A path leads to a directory exactly if it leads to a place where one is. -/
theorem isDir_eq {path : String} : t.isDir path = true ↔
    ∃ q, t.locatePath path = .ok (.found q) ∧ t.look? q = some .dir := by
  have reads : t.isDir path = true ↔ ∃ es, t.read path = .ok (.dir es) := by
    unfold isDir
    split
    · rename_i es read
      exact iff_of_true rfl ⟨es, read⟩
    · rename_i other
      exact iff_of_false Bool.false_ne_true fun ⟨es, read⟩ => other es read
  simp only [reads, read_eq_ok_iff, look?_eq_dir_iff]
  exact ⟨fun ⟨es, q, found, there⟩ => ⟨q, found, es, there⟩, fun ⟨q, found, es, there⟩ => ⟨es, q, found, there⟩⟩

/-- A path leads to a file exactly if it leads to a place where one is. -/
theorem isFile_eq {path : String} : t.isFile path = true ↔
    ∃ q content, t.locatePath path = .ok (.found q) ∧ t.look? q = some (.file content) := by
  have reads : t.isFile path = true ↔ ∃ content, t.read path = .ok (.file content) := by
    unfold isFile
    split
    · rename_i content read
      exact iff_of_true rfl ⟨content, read⟩
    · rename_i other
      exact iff_of_false Bool.false_ne_true fun ⟨content, read⟩ => other content read
  simp only [reads, read_eq_ok_iff, look?_eq_file_iff]
  exact exists_comm

theorem isDir_of_isFile {path : String} (h : t.isFile path = true) : t.isDir path = false := by
  rw [Bool.eq_false_iff]
  intro dir
  obtain ⟨q, content, found, file⟩ := isFile_eq.1 h
  obtain ⟨q', found', there⟩ := isDir_eq.1 dir
  cases found.symm.trans found'
  cases file.symm.trans there

/-- An absolute path leads to a directory exactly if its names do. -/
theorem isDir_fromTop (hp : ∀ n ∈ ns, Plain n) (hc : Clean ns) : t.isDir (fromTop ns) = true ↔ ∃ q, t.LeadsTo ns q := by
  rw [isDir_eq]
  by_cases hn : ns = []
  · subst hn
    have top : t.locatePath (fromTop []) = if t.look? [] = some .dir then .ok (.found []) else .error .notDirectory := by
      show t.locate maxLinks [] ["."] = _
      rw [locate_cons, if_pos rfl, locate_nil]
    rw [top]
    constructor
    · rintro ⟨q, found, there⟩
      split at found
      · cases found
        exact ⟨[], locate_nil _ _ _, there⟩
      · cases found
    · rintro ⟨q, found, there⟩
      rw [locate_nil] at found
      cases found
      exact ⟨[], if_pos there, there⟩
  · rw [locatePath_fromTop hp hc hn]
    exact ⟨fun ⟨q, found, there⟩ => ⟨q, found, there⟩, fun ⟨q, h⟩ => ⟨q, h.found, h.dir⟩⟩

/-- A directory is made by its path as by the names above it and its own. -/
theorem makeDir_fromTop (hp : ∀ m ∈ ns ++ [n], Plain m) (hc : Clean (ns ++ [n])) :
    t.makeDir (fromTop (ns ++ [n])) = t.makeEntry ns n := by
  have zero : ¬ (fromTop (ns ++ [n])).toList.contains '\x00' = true := fun h =>
    (contains_zero _).1 h (by rwa [pathNames_fromTop hp])
  unfold makeDir
  rw [if_neg zero, pathNames_fromTop hp, List.getLast?_concat, List.dropLast_concat]

/-- Making an entry, by what is at the places. -/
theorem makeEntry_eq (t : Tree) (ns : List String) (n : String) : t.makeEntry ns n =
    match t.locate maxLinks [] ns with
    | .error e => .error e
    | .ok (.absent _ _) => .error .notFound
    | .ok (.found p) =>
      if t.look? p = some .dir then
        if n = "." ∨ n = ".." then .error .alreadyExists
        else if maxNameLength < n.utf8ByteSize then .error .nameTooLong
        else if t.look? (p ++ [n]) = none then .ok (t.put (p ++ [n]) (.dir []))
        else .error .alreadyExists
      else .error .notDirectory := by
  unfold makeEntry
  cases t.locate maxLinks [] ns with
  | error e => rfl
  | ok l =>
    cases l with
    | absent parent name => rfl
    | found p =>
      dsimp only
      by_cases dir : t.look? p = some .dir
      · obtain ⟨es, hes⟩ := look?_eq_dir_iff.1 dir
        rw [if_pos dir, hes, look?, get?_snoc hes]
        dsimp only
        cases lookup n es <;> rfl
      · rw [if_neg dir]
        split
        · rename_i es hes
          exact absurd (look?_eq_dir_iff.2 ⟨es, hes⟩) dir
        · rfl

/-- Nothing is made where something is, and for a reason that stays. -/
theorem makeEntry_cases (t : Tree) (ns : List String) (n : String) :
    (∃ e, e ≠ .notFound ∧ t.makeEntry ns n = .error e) ∨ t.locate maxLinks [] (ns ++ [n]) = .error .notFound ∨
      ∃ p m, t.locate maxLinks [] (ns ++ [n]) = .ok (.absent p m) := by
  rw [makeEntry_eq]
  cases hl : t.locate maxLinks [] ns with
  | error e =>
    by_cases he : e = .notFound
    · exact .inr (.inl (he ▸ locate_append_error hl [n]))
    · exact .inl ⟨e, he, rfl⟩
  | ok l =>
    cases l with
    | absent p m => exact .inr (.inl (locate_append_absent (List.cons_ne_nil _ _) hl))
    | found p =>
      obtain ⟨links, -, goes⟩ := locate_append hl
      dsimp only
      rw [goes [n], locate_cons]
      split
      · split
        · exact .inl ⟨.alreadyExists, nofun, rfl⟩
        · rename_i dots
          rw [not_or] at dots
          rw [if_neg dots.1, if_neg dots.2]
          split
          · exact .inl ⟨.nameTooLong, nofun, rfl⟩
          · split
            · rename_i nothing
              rw [nothing]
              exact .inr (.inr ⟨_, _, rfl⟩)
            · exact .inl ⟨.alreadyExists, nofun, rfl⟩
      · exact .inl ⟨.notDirectory, nofun, rfl⟩

/-! ## What becomes of the tree -/

/-- A tree in which nothing has changed but that there are new directories. -/
def Wider (t c : Tree) : Prop :=
  ∀ q, c.look? q = t.look? q ∨ t.look? q = none ∧ c.look? q = some .dir

theorem Wider.refl (t : Tree) : t.Wider t :=
  fun _ => .inl rfl

theorem Wider.trans {u : Tree} (h : t.Wider c) (h' : c.Wider u) : t.Wider u := by
  intro q
  rcases h' q with same | ⟨nothing, made⟩
  · rw [same]
    exact h q
  · rcases h q with same | ⟨-, made'⟩
    · exact .inr ⟨same ▸ nothing, made⟩
    · rw [nothing] at made'
      cases made'

theorem Wider.grows (h : t.Wider c) : t.Grows c :=
  .of_looks fun q => (h q).imp_right fun made => .inl ⟨made.1, by rw [made.2]; nofun⟩

/-- What is made is made in a directory. -/
theorem of_makeEntry (h : t.makeEntry ns n = .ok c) : ∃ p, t.LeadsTo ns p ∧ n ≠ "." ∧ n ≠ ".." ∧
    ¬ maxNameLength < n.utf8ByteSize ∧ t.look? (p ++ [n]) = none ∧ c = t.put (p ++ [n]) (.dir []) := by
  rw [makeEntry_eq] at h
  split at h
  · cases h
  · cases h
  · rename_i p found
    split at h
    · rename_i there
      split at h
      · cases h
      · rename_i dots
        rw [not_or] at dots
        split at h
        · cases h
        · rename_i short
          split at h
          · rename_i nothing
            cases h
            exact ⟨p, ⟨found, there⟩, dots.1, dots.2, short, nothing, rfl⟩
          · cases h
    · cases h

/-- A directory that is made makes a tree wider. -/
theorem wider_put (there : t.look? p = some .dir) (nothing : t.look? (p ++ [n]) = none) :
    t.Wider (t.put (p ++ [n]) (.dir [])) := by
  intro q
  rw [look?_putDir there nothing]
  split
  · rename_i same
    exact .inr ⟨same ▸ nothing, rfl⟩
  · exact .inl rfl

theorem wider_makeEntry (h : t.makeEntry ns n = .ok c) : t.Wider c := by
  obtain ⟨p, leads, -, -, -, nothing, rfl⟩ := of_makeEntry h
  exact wider_put leads.dir nothing

theorem wider_makeDir {path : String} (h : t.makeDir path = .ok c) : t.Wider c := by
  unfold makeDir at h
  split at h
  · cases h
  · split at h
    · cases h
    · exact wider_makeEntry h

/-- A directory that had to be there was made, or was there. -/
theorem makeDirOrKeep_cases {path : String} (h : t.makeDirOrKeep path = .ok c) :
    t.makeDir path = .ok c ∨ t.isDir path = true ∧ c = t := by
  unfold makeDirOrKeep at h
  split at h
  · rename_i made
    cases h
    exact .inl made
  · split at h
    · rename_i there
      cases h
      exact .inr ⟨there, rfl⟩
    · cases h

/-- What is kept when one directory is made is kept when all that are missing are made. -/
theorem makeAll_induction {P : Tree → Prop}
    (made : ∀ {t c : Tree} {path : String}, P t → t.makeDir path = .ok c → P c) (h : P t) (paths : List String) :
    P (t.makeAll paths).1 := by
  induction paths with
  | nil => exact h
  | cons path paths ih =>
    unfold makeAll
    split
    · exact h
    · split
      · rename_i done
        exact made h done
      · -- a directory further up is missing, so this one is made after those above
        split
        · rename_i above
          rwa [above] at ih
        · rename_i above
          rw [above] at ih
          split
          · rename_i kept
            rcases makeDirOrKeep_cases kept with done | ⟨-, rfl⟩
            · exact made ih done
            · exact ih
          · exact ih
      · exact h

/-- Directories are all that is made. -/
theorem wider_makeAll (t : Tree) (paths : List String) : t.Wider (t.makeAll paths).1 :=
  makeAll_induction (fun rest made => rest.trans (wider_makeDir made)) (.refl t) paths

/-! ## One after the other -/

/-- Does something more, unless what was done before has failed. -/
def andThen (x : Tree × Bool) (f : Tree → Tree × Bool) : Tree × Bool :=
  match x with
  | (c, true) => f c
  | (c, false) => (c, false)

section

variable {x : Tree × Bool} {f g : Tree → Tree × Bool}

theorem andThen_of_done (h : x.2 = true) (f : Tree → Tree × Bool) : andThen x f = f x.1 := by
  obtain ⟨c, went⟩ := x
  cases h
  rfl

theorem andThen_of_failed (h : x.2 = false) (f : Tree → Tree × Bool) : andThen x f = x := by
  obtain ⟨c, went⟩ := x
  cases h
  rfl

/-- Both go well, if one after the other does. -/
theorem snd_andThen : (andThen x f).2 = true ↔ x.2 = true ∧ (f x.1).2 = true := by
  cases done : x.2 with
  | true => rw [andThen_of_done done, and_iff_right rfl]
  | false => rw [andThen_of_failed done, done, and_iff_left_of_imp nofun]

theorem andThen_congr (h : x.2 = true → f x.1 = g x.1) : andThen x f = andThen x g := by
  cases went : x.2 with
  | false => rw [andThen_of_failed went, andThen_of_failed went]
  | true => rw [andThen_of_done went, andThen_of_done went, h went]

/-- What each step keeps is kept. -/
theorem fst_andThen {P : Tree → Prop} (hx : P x.1) (hf : x.2 = true → P (f x.1).1) : P (andThen x f).1 := by
  cases went : x.2 with
  | false =>
    rw [andThen_of_failed went]
    exact hx
  | true =>
    rw [andThen_of_done went]
    exact hf went

end

/-! ## From the top -/

/-- The tree that is left, and whether all went well. -/
def outcome (r : Tree × Option OsError) : Tree × Bool :=
  (r.1, r.2.isNone)

theorem fst_of_outcome {r : Tree × Option OsError} {went : Bool} (h : outcome r = (c, went)) : r.1 = c :=
  congrArg Prod.fst h

theorem wider_of_outcome {paths : List String} {went : Bool} (h : outcome (t.makeAll paths) = (c, went)) : t.Wider c :=
  fst_of_outcome h ▸ wider_makeAll t paths

/-- What is left of a tree when something was tried, and whether it went well. -/
def tried (t : Tree) : Except OsError Tree → Tree × Bool
  | .ok c => (c, true)
  | .error _ => (t, false)

/-- What fails leaves the tree as it is. -/
theorem tried_failed {r : Except OsError Tree} (h : t.tried r = (c, false)) : c = t := by
  cases r with
  | ok d => cases h
  | error e =>
    cases h
    rfl

/-- Where a directory cannot be made it may be there. -/
theorem tried_makeDirOrKeep_of_error {path : String} {e : OsError} (h : t.makeDir path = .error e) :
    t.tried (t.makeDirOrKeep path) = (t, t.isDir path) := by
  rw [makeDirOrKeep, h]
  cases t.isDir path <;> rfl

/-- An attempt that ends at once. -/
theorem makeAll_of_error {path : String} {paths : List String} {e : OsError} (hp : path.isEmpty = false)
    (h : t.makeDir path = .error e) (he : e ≠ .notFound) :
    t.makeAll (path :: paths) = (t, if t.isDir path then none else some e) := by
  unfold makeAll
  rw [hp, h]
  simp only [Bool.false_eq_true, if_false]

theorem makeAll_top (t : Tree) :
    t.makeAll (above []) = (t, if t.isDir (fromTop []) then none else some .alreadyExists) :=
  makeAll_of_error (fromTop_isEmpty _) rfl nofun

/-- A directory that is made at once. -/
theorem makeAll_of_ok {path : String} {paths : List String} (hp : path.isEmpty = false) (h : t.makeDir path = .ok c) :
    t.makeAll (path :: paths) = (c, none) := by
  unfold makeAll
  rw [hp, h]
  rfl

/-- A directory that cannot be made before those above it. -/
theorem outcome_makeAll_of_notFound {path : String} {paths : List String} (hp : path.isEmpty = false)
    (h : t.makeDir path = .error .notFound) : outcome (t.makeAll (path :: paths)) =
      andThen (outcome (t.makeAll paths)) fun c => c.tried (c.makeDirOrKeep path) := by
  rw [makeAll, hp, h]
  simp only [Bool.false_eq_true, if_false]
  cases t.makeAll paths with
  | mk c fault =>
    cases fault with
    | some fault => rfl
    | none =>
      show outcome (match c.makeDirOrKeep path with | .ok d => (d, none) | .error e => (c, some e)) =
        c.tried (c.makeDirOrKeep path)
      cases c.makeDirOrKeep path with
      | ok d => rfl
      | error fault => rfl

/-- A directory that is there is not made. -/
theorem LeadsTo.makeAll (h : t.LeadsTo ns p) (hp : ∀ m ∈ ns, Plain m) (hc : Clean ns) :
    t.makeAll (above ns) = (t, none) := by
  have there : t.isDir (fromTop ns) = true := (isDir_fromTop hp hc).2 ⟨p, h⟩
  rcases List.eq_nil_or_concat' ns with rfl | ⟨front, n, rfl⟩
  · rw [makeAll_top, if_pos there]
  · obtain ⟨e, he, error⟩ : ∃ e, e ≠ .notFound ∧ t.makeEntry front n = .error e := by
      rcases makeEntry_cases t front n with error | missing | ⟨q, m, missing⟩
      · exact error
      · rw [h.found] at missing
        cases missing
      · rw [h.found] at missing
        cases missing
    rw [above_snoc, makeAll_of_error (fromTop_isEmpty _) ((makeDir_fromTop hp hc).trans error) he, if_pos there]

/-- The names lead nowhere where a directory is or could be made. -/
def Blocked (t : Tree) (names : List String) : Prop :=
  (∃ e, e ≠ .notFound ∧ t.locate maxLinks [] names = .error e) ∨
    ∃ p, t.locate maxLinks [] names = .ok (.found p) ∧ t.look? p ≠ some .dir

/-- Names that are blocked lead to no directory. -/
theorem Blocked.not_leadsTo (h : t.Blocked ns) : ¬ t.LeadsTo ns p := by
  rintro ⟨found, there⟩
  rcases h with ⟨e, -, error⟩ | ⟨q, found', other⟩
  · rw [error] at found
    cases found
  · rw [found'] at found
    cases found
    exact other there

/-- Where the way is blocked nothing is made. -/
theorem Blocked.makeAll (h : t.Blocked ns) (hp : ∀ m ∈ ns, Plain m) (hc : Clean ns) :
    outcome (t.makeAll (above ns)) = (t, false) := by
  have missing : t.isDir (fromTop ns) ≠ true := fun there =>
    let ⟨_, leads⟩ := (isDir_fromTop hp hc).1 there
    h.not_leadsTo leads
  rcases List.eq_nil_or_concat' ns with rfl | ⟨front, n, rfl⟩
  · rw [makeAll_top, if_neg missing]
    rfl
  · obtain ⟨e, he, error⟩ : ∃ e, e ≠ .notFound ∧ t.makeEntry front n = .error e := by
      rcases makeEntry_cases t front n with error | absent | ⟨q, m, absent⟩
      · exact error
      · rcases h with ⟨e, he, other⟩ | ⟨p, other, -⟩
        · rw [absent] at other
          cases other
          exact absurd rfl he
        · rw [absent] at other
          cases other
      · rcases h with ⟨e, he, other⟩ | ⟨p, other, -⟩ <;> rw [absent] at other <;> cases other
    rw [above_snoc, makeAll_of_error (fromTop_isEmpty _) ((makeDir_fromTop hp hc).trans error) he, if_neg missing]
    rfl

/-- What stands in the way of a directory blocks the way to the one above, if there is none. -/
theorem blocked_of_makeDir {e : OsError} (hp : ∀ m ∈ ns ++ [n], Plain m) (hc : Clean (ns ++ [n]))
    (h : t.makeDir (fromTop (ns ++ [n])) = .error e) (he : e ≠ .notFound) (leads : ¬ ∃ p, t.LeadsTo ns p) :
    t.Blocked ns := by
  rw [makeDir_fromTop hp hc, makeEntry_eq] at h
  cases hl : t.locate maxLinks [] ns with
  | error e' =>
    rw [hl] at h
    cases h
    exact .inl ⟨e, he, hl⟩
  | ok l =>
    rw [hl] at h
    cases l with
    | absent q m =>
      cases h
      exact absurd rfl he
    | found q => exact .inr ⟨q, hl, fun there => leads ⟨q, hl, there⟩⟩

/-- Directories are made one after the other, from the top. -/
theorem makeAll_above_snoc (t : Tree) (hp : ∀ m ∈ ns ++ [n], Plain m) (hc : Clean (ns ++ [n])) :
    outcome (t.makeAll (above (ns ++ [n]))) =
      andThen (outcome (t.makeAll (above ns))) fun c => c.tried (c.makeDirOrKeep (fromTop (ns ++ [n]))) := by
  have hp' : ∀ m ∈ ns, Plain m := fun m hm => hp m (List.mem_append_left _ hm)
  have hc' : Clean ns := fun m hm => hc m (List.mem_append_left _ hm)
  rw [above_snoc]
  cases hm : t.makeDir (fromTop (ns ++ [n])) with
  | ok c =>
    obtain ⟨p, leads, -⟩ := of_makeEntry ((makeDir_fromTop hp hc).symm.trans hm)
    rw [makeAll_of_ok (fromTop_isEmpty _) hm, leads.makeAll hp' hc']
    show _ = t.tried (t.makeDirOrKeep (fromTop (ns ++ [n])))
    rw [makeDirOrKeep, hm]
    rfl
  | error e =>
    by_cases he : e = .notFound
    · exact outcome_makeAll_of_notFound (fromTop_isEmpty _) (he ▸ hm)
    · rw [makeAll_of_error (fromTop_isEmpty _) hm he]
      by_cases leads : ∃ p, t.LeadsTo ns p
      · obtain ⟨p, leads⟩ := leads
        rw [leads.makeAll hp' hc']
        show _ = t.tried (t.makeDirOrKeep (fromTop (ns ++ [n])))
        rw [tried_makeDirOrKeep_of_error hm]
        cases t.isDir (fromTop (ns ++ [n])) <;> rfl
      · have missing : t.isDir (fromTop (ns ++ [n])) ≠ true := fun there => by
          obtain ⟨p, whole⟩ := (isDir_fromTop hp hc).1 there
          exact leads whole.up
        rw [(blocked_of_makeDir hp hc hm he leads).makeAll hp' hc', if_neg missing]
        rfl

/-- Where a path holds a zero nothing is made. -/
theorem makeAll_zero (hp : ∀ m ∈ ns, Plain m) (hc : ¬ Clean ns) : outcome (t.makeAll (above ns)) = (t, false) := by
  obtain ⟨front, n, rfl⟩ := (List.eq_nil_or_concat' ns).resolve_left (fun none => hc (none ▸ nofun))
  have zero : (fromTop (front ++ [n])).toList.contains '\x00' = true := by
    rw [contains_zero, pathNames_fromTop hp]
    exact hc
  have error : t.makeDir (fromTop (front ++ [n])) = .error .zeroInPath := by
    unfold makeDir
    rw [if_pos zero]
  have missing : t.isDir (fromTop (front ++ [n])) ≠ true := by
    rw [ne_eq, isDir_eq, locatePath, if_pos zero]
    rintro ⟨q, found, -⟩
    cases found
  rw [above_snoc, makeAll_of_error (fromTop_isEmpty _) error nofun, if_neg missing]
  rfl

/-! ## What is reached -/

/-- A directory that was made is led to. -/
theorem LeadsTo.put (h : t.LeadsTo ns p) (one : n ≠ ".") (two : n ≠ "..") (short : ¬ maxNameLength < n.utf8ByteSize)
    (hg : t.Grows c) (made : c.look? (p ++ [n]) = some .dir) : c.LeadsTo (ns ++ [n]) (p ++ [n]) := by
  have before := hg.leadsTo h
  obtain ⟨links, -, goes⟩ := locate_append before.found
  refine ⟨?_, made⟩
  rw [goes [n], locate_entry ⟨before.dir, one, two, short⟩ made nofun, locate_nil]

/-- A directory that was made, or was there, is led to. -/
theorem leadsTo_of_makeDirOrKeep (hp : ∀ m ∈ ns ++ [n], Plain m) (hc : Clean (ns ++ [n]))
    (h : t.makeDirOrKeep (fromTop (ns ++ [n])) = .ok c) : ∃ p, c.LeadsTo (ns ++ [n]) p := by
  rcases makeDirOrKeep_cases h with made | ⟨there, rfl⟩
  · obtain ⟨p, leads, one, two, short, nothing, rfl⟩ := of_makeEntry ((makeDir_fromTop hp hc).symm.trans made)
    refine ⟨_, leads.put one two short (Grows.putDir leads.dir nothing) ?_⟩
    rw [look?_putDir leads.dir nothing, if_pos rfl]
  · exact (isDir_fromTop hp hc).1 there

/-- Directories that were made, or were there, lead to the last of them. -/
theorem leadsTo_of_makeAll (hp : ∀ m ∈ ns, Plain m) (hc : Clean ns)
    (h : outcome (t.makeAll (above ns)) = (c, true)) : ∃ p, c.LeadsTo ns p := by
  rcases List.eq_nil_or_concat' ns with rfl | ⟨front, n, rfl⟩
  · rw [makeAll_top] at h
    by_cases there : t.isDir (fromTop []) = true
    · rw [if_pos there] at h
      cases h
      exact (isDir_fromTop hp hc).1 there
    · rw [if_neg there] at h
      cases h
  · rw [makeAll_above_snoc t hp hc] at h
    cases went : (outcome (t.makeAll (above front))).2 with
    | false =>
      rw [andThen_of_failed went] at h
      rw [h] at went
      cases went
    | true =>
      rw [andThen_of_done went] at h
      generalize (outcome (t.makeAll (above front))).1 = d at h
      cases made : d.makeDirOrKeep (fromTop (front ++ [n])) with
      | error e =>
        rw [made] at h
        cases h
      | ok d' =>
        rw [made] at h
        cases h
        exact leadsTo_of_makeDirOrKeep hp hc made

/-- After a failure nothing further is made. -/
theorem makeAll_append_of_failed {ms : List String} (hp : ∀ m ∈ ns ++ ms, Plain m) (hc : Clean (ns ++ ms))
    (h : outcome (t.makeAll (above ns)) = (c, false)) : outcome (t.makeAll (above (ns ++ ms))) = (c, false) := by
  induction ms generalizing ns with
  | nil => rwa [List.append_nil]
  | cons m ms ih =>
    rw [List.append_cons] at hp hc ⊢
    refine ih hp hc ?_
    rw [makeAll_above_snoc t (fun k hk => hp k (List.mem_append_left _ hk)) fun k hk => hc k (List.mem_append_left _ hk), h]
    rfl

/-- The first directory that could not be made cannot be made again. -/
theorem makeAll_again_of_failed (hp : ∀ m ∈ ns, Plain m) (hc : Clean ns)
    (h : outcome (t.makeAll (above ns)) = (c, false)) : outcome (c.makeAll (above ns)) = (c, false) := by
  -- the failure is the last attempt, or one further up that keeps all later ones from being made
  induction ns using List.reverseRecOn generalizing c with
  | nil =>
    rw [makeAll_top] at h
    cases congrArg Prod.fst h
    rwa [makeAll_top]
  | append_singleton front n ih =>
    have hp' : ∀ m ∈ front, Plain m := fun m hm => hp m (List.mem_append_left _ hm)
    have hc' : Clean front := fun m hm => hc m (List.mem_append_left _ hm)
    rw [makeAll_above_snoc t hp hc] at h
    rw [makeAll_above_snoc c hp hc]
    cases hf : outcome (t.makeAll (above front)) with
    | mk d went =>
      rw [hf] at h
      cases went with
      | false =>
        cases h
        rw [ih hp' hc' hf]
        rfl
      | true =>
        obtain rfl := tried_failed h
        obtain ⟨p, leads⟩ := leadsTo_of_makeAll hp' hc' hf
        rw [leads.makeAll hp' hc']
        exact h

/-- A second time nothing is made that was not made the first time. -/
theorem makeAll_makeAll (t : Tree) (hp : ∀ m ∈ ns, Plain m) :
    outcome ((t.makeAll (above ns)).1.makeAll (above ns)) = outcome (t.makeAll (above ns)) := by
  by_cases hc : Clean ns
  · cases hr : outcome (t.makeAll (above ns)) with
    | mk c went =>
      rw [fst_of_outcome hr]
      cases went with
      | true =>
        obtain ⟨p, leads⟩ := leadsTo_of_makeAll hp hc hr
        rw [leads.makeAll hp hc]
        rfl
      | false => exact makeAll_again_of_failed hp hc hr
  · have failed (d : Tree) : outcome (d.makeAll (above ns)) = (d, false) := makeAll_zero hp hc
    rw [fst_of_outcome (failed t)]

end InPlace.Files.Tree

import InPlace.Proofs.Files.Depths
import InPlace.Proofs.Files.Tidying
import InPlace.Proofs.Files.Trails

/-!
# Walks through a tree that has been written to

Directories are made in a tree and files are written. A later walk lists what the walk before listed, if no link that it
comes to leads over one of the places where something was made or written, and if the ways on which it would come to a
written file do not count.

Main statements: `mem_filesBelow_congr` and `Beside.not_written`.
-/

namespace InPlace.Files.Tree

open Text.Path (join)

variable {t u : Tree} {p q d : Place} {n : String} {ns ms : List String} {skipped : String → Bool}
  {walked : List Place} {links k : Nat} {made written : Place → Prop} {counts : List String → Prop}

/-! ## What has changed -/

/-- What may have become of a place: a directory has been made there, or a file has been written. -/
inductive ChangedAt (t u : Tree) (made written : Place → Prop) (q : Place) : Prop
  | same (h : u.look? q = t.look? q)
  | made (h : made q) (before : t.look? q = none) (after : u.look? q = some .dir)
  | written (h : written q) (before : t.look? q = none ∨ ∃ old, t.look? q = some (.file old))
      (after : ∃ new, u.look? q = some (.file new))

/-- Nothing has changed but that directories have been made at some places and files have been written at others. -/
def Changes (t u : Tree) (made written : Place → Prop) : Prop :=
  ∀ q, ChangedAt t u made written q

theorem Changes.refl (t : Tree) (made written : Place → Prop) : Changes t t made written :=
  fun _ => .same rfl

/-- A tree in which directories were made and files were written has grown. -/
theorem Changes.grows (h : Changes t u made written) : t.Grows u := by
  refine .of_looks fun q => ?_
  cases h q with
  | same h => exact .inl h
  | made _ before after => exact .inr (.inl ⟨before, by rw [after]; nofun⟩)
  | written _ before after =>
    obtain ⟨new, hnew⟩ := after
    exact .inr (before.imp (fun none => ⟨none, by rw [hnew]; nofun⟩) fun old => ⟨old, new, hnew⟩)

theorem Changes.look?_eq (h : Changes t u made written) (hm : ¬ made q) (hw : ¬ written q) : u.look? q = t.look? q := by
  cases h q with
  | same h => exact h
  | made h _ _ => exact absurd h hm
  | written h _ _ => exact absurd h hw

/-! ## Where a walk comes -/

/-- A walk from a directory comes by the names to a directory. -/
inductive Comes (t : Tree) (skipped : String → Bool) (p : Place) : List String → Place → Prop
  | here : Comes t skipped p [] p
  | step {ns : List String} {d q : Place} {n : String} (way : Comes t skipped p ns d) (proper : Proper n)
      (found : t.locate maxLinks d [n] = .ok (.found q)) (look : t.look? q = some .dir) (kept : skipped n = false) :
      Comes t skipped p (ns ++ [n]) q

/-- With fewer links than a walk has at each name, names lead to the directory that the walk comes to, or run out of
them. -/
theorem Comes.locate_fewer (h : t.Comes skipped p ns d) (hl : links ≤ maxLinks) :
    t.locate links p ns = .error .tooManyLinks ∨
      ∃ left, left ≤ links ∧ ∀ ys, t.locate links p (ns ++ ys) = t.locate left d ys := by
  induction h with
  | here => exact .inr ⟨links, Nat.le_refl _, fun ys => rfl⟩
  | @step ns d q n way proper found look kept ih =>
    rcases ih with none | ⟨left, fewer, goes⟩
    · exact .inl (locate_append_error none [n])
    · rw [goes [n]]
      have last : t.locate left d [n] = .error .tooManyLinks ∨ t.locate left d [n] = t.locate maxLinks d [n] :=
        Tree.locate_fewer (fewer.trans hl)
      refine last.imp_right fun same => ?_
      obtain ⟨rest, fewer', goes'⟩ := locate_append (same.trans found)
      refine ⟨rest, fewer'.trans fewer, fun ys => ?_⟩
      rw [List.append_assoc, goes]
      exact goes' ys

/-- The way to a file leads to the directory of its last name. -/
theorem Way.exists_last (h : Way t skipped d ms) (way : t.Comes skipped p ns d) : ∃ front n e q content,
    ms = front ++ [n] ∧ t.Comes skipped p (ns ++ front) e ∧ Proper n ∧ t.locate maxLinks e [n] = .ok (.found q) ∧
      t.look? q = some (.file content) := by
  induction h generalizing ns with
  | @file here q n content proper found look =>
    exact ⟨[], n, here, q, content, rfl, by rwa [List.append_nil], proper, found, look⟩
  | @dir here q n ms proper found look kept rest ih =>
    obtain ⟨front, m, e, r, content, rfl, further, last⟩ := ih (way.step proper found look kept)
    refine ⟨n :: front, m, e, r, content, rfl, ?_, last⟩
    rwa [List.append_cons]

/-- Below an entry that is no link, with no links below it, the way leads by the places of its names. -/
theorem Way.look?_of_entry (h : Way t skipped d (n :: ms)) (free : t.LinkFree (d ++ [n])) :
    ∃ content, t.look? (d ++ n :: ms) = some (.file content) := by
  have other (target : String) : t.look? (d ++ [n]) ≠ some (.link target) := by
    have := free [] target
    rwa [List.append_nil] at this
  cases h with
  | file proper found look =>
    rw [found_eq_snoc proper other found] at look
    exact ⟨_, look⟩
  | dir proper found look kept rest =>
    rw [found_eq_snoc proper other found] at rest
    rw [List.append_cons]
    exact (rest.look? free).1

/-! ## Aside from a walk -/

/-- What is made and written is beside a walk: no link that the walk comes to leads over it, and the ways on which the walk
would come to what is written do not count. -/
structure Beside (t : Tree) (skipped : String → Bool) (p : Place) (counts : List String → Prop)
    (made written : Place → Prop) : Prop where
  links : ∀ ns d n target, t.Comes skipped p ns d → t.look? (d ++ [n]) = some (.link target) →
    ∀ q ∈ t.trail maxLinks d [n], ¬ made q ∧ ¬ written q
  ways : ∀ ns d ms, t.Comes skipped p ns d → ms ≠ [] → written (d ++ ms) → ¬ counts (ns ++ ms)

namespace Beside

variable (beside : t.Beside skipped p counts made written)

include beside

/-- A file that counts is not written. -/
theorem not_written {path : String} (arrives : t.Arrives path p) (way : Way t skipped p ms) (hc : counts ms)
    (found : t.locatePath (joins path ms) = .ok (.found q)) : ¬ written q := by
  obtain ⟨links, hl, goes⟩ := arrives.behind (Grows.refl t)
  have found := (goes ms way.proper way.ne_nil).1.symm.trans found
  obtain ⟨front, n, e, r, content, rfl, comes, proper, last, look⟩ := way.exists_last .here
  rw [List.nil_append] at comes
  have place : r = q := by
    rcases comes.locate_fewer hl with none | ⟨left, fewer, goes⟩
    · cases (locate_append_error none [n]).symm.trans found
    · rw [goes [n]] at found
      have same : t.locate left e [n] = .error .tooManyLinks ∨ t.locate left e [n] = t.locate maxLinks e [n] :=
        Tree.locate_fewer (fewer.trans hl)
      rcases same with none | same
      · cases none.symm.trans found
      · cases last.symm.trans (same.symm.trans found)
        rfl
  subst place
  intro hw
  by_cases link : ∃ target, t.look? (e ++ [n]) = some (.link target)
  · obtain ⟨target, link⟩ := link
    exact (beside.links front e n target comes link r (mem_trail_of_found last)).2 hw
  · rw [not_exists] at link
    rw [found_eq_snoc proper link last] at hw
    exact beside.ways front e [n] comes (List.cons_ne_nil _ _) hw hc

variable (changes : Changes t u made written)

include changes

/-- An entry that is what it was leads where it led, over places that are what they were. -/
theorem look?_trail (comes : t.Comes skipped p ns d) (there : t.look? d = some .dir) (hn : Proper n)
    (same : u.look? (d ++ [n]) = t.look? (d ++ [n])) : ∀ q ∈ t.trail maxLinks d [n], u.look? q = t.look? q := by
  have first : u.look? d = t.look? d := (changes.grows.dir d there).trans there.symm
  by_cases link : ∃ target, t.look? (d ++ [n]) = some (.link target)
  · obtain ⟨target, link⟩ := link
    intro q hq
    obtain ⟨hm, hw⟩ := beside.links ns d n target comes link q hq
    exact changes.look?_eq hm hw
  · rw [not_exists] at link
    rw [trail_cons, if_pos there, if_neg hn.here, if_neg hn.up]
    have last : ∀ q ∈ [d ++ [n]], u.look? q = t.look? q := fun q hq => List.mem_singleton.1 hq ▸ same
    refine List.forall_mem_cons.2 ⟨first, ?_⟩
    split
    · nofun
    · split
      · exact last
      · rename_i target hl
        exact absurd hl (link target)
      · rw [trail_nil]
        exact last

/-- A walk comes at an entry that is what it was to the place to which it came. -/
theorem comesTo?_eq {path : String} (arrives : t.Arrives path d) (comes : t.Comes skipped p ns d)
    (there : t.look? d = some .dir) (hn : Proper n) (same : u.look? (d ++ [n]) = t.look? (d ++ [n])) :
    u.comesTo? path d n = t.comesTo? path d n := by
  obtain ⟨links, fewer, goes⟩ := arrives.behind changes.grows
  -- on both sides the links that are left are as many, and what they lead over is what it was
  obtain ⟨before, after⟩ := goes [n] (fun m hm => List.mem_singleton.1 hm ▸ hn) (List.cons_ne_nil _ _)
  have leads : u.locatePath (join path n) = t.locatePath (join path n) :=
    (after.trans (locate_congr fewer (beside.look?_trail changes comes there hn same))).trans before.symm
  rw [comesTo?, comesTo?, same, leads]

/-- What a walk comes to at an entry that is not what it was does not count. -/
theorem not_counts_after (comes : t.Comes skipped p ns d) (other : u.look? (d ++ [n]) ≠ t.look? (d ++ [n]))
    (way : Way u skipped d (n :: ms)) : ¬ counts (ns ++ n :: ms) := by
  have grows := changes.grows
  have noDir : t.look? (d ++ [n]) ≠ some .dir := fun there => other ((grows.dir _ there).trans there.symm)
  have free : u.LinkFree (d ++ [n]) := by
    intro r target hl
    have before := grows.links _ _ hl
    by_cases none : r = []
    · subst none
      rw [List.append_nil] at before hl
      exact other (hl.trans before.symm)
    · exact noDir (look?_of_append (by rw [before]; nofun) none)
  obtain ⟨content, file⟩ := way.look?_of_entry free
  cases changes (d ++ n :: ms) with
  | same h =>
    have before := h.symm.trans file
    by_cases none : ms = []
    · subst none
      exact absurd h other
    · rw [List.append_cons] at before
      exact absurd (look?_of_append (by rw [before]; nofun) none) noDir
  | made _ _ after => cases file.symm.trans after
  | written h _ _ => exact beside.ways ns d (n :: ms) comes (List.cons_ne_nil _ _) h

/-- What a walk came to at an entry that has changed since did not count. -/
theorem not_counts_before (comes : t.Comes skipped p ns d) (other : u.look? (d ++ [n]) ≠ t.look? (d ++ [n]))
    (way : Way t skipped d (n :: ms)) : ¬ counts (ns ++ n :: ms) := by
  have grows := changes.grows
  have noLink (target : String) : t.look? (d ++ [n]) ≠ some (.link target) := fun hl =>
    other ((grows.link _ _ hl).trans hl.symm)
  cases way with
  | file proper found look =>
    rw [found_eq_snoc proper noLink found] at look
    cases changes (d ++ [n]) with
    | same h => exact absurd h other
    | made _ before _ => cases before.symm.trans look
    | written h _ _ => exact beside.ways ns d [n] comes (List.cons_ne_nil _ _) h
  | dir proper found look kept rest =>
    rw [found_eq_snoc proper noLink found] at look
    exact absurd ((grows.dir _ look).trans look.symm) other

end Beside

/-! ## The same walk once more -/

/-- What an entry leads to is listed alike in two trees in which it leads to the same place. -/
theorem mem_namesFrom_congr {path : String} {further further' : List Place → Place → String → List (List String)}
    (same : u.look? (d ++ [n]) = t.look? (d ++ [n])) (leads : u.comesTo? path d n = t.comesTo? path d n)
    (looks : ∀ q, t.comesTo? path d n = some q → u.look? q = t.look? q)
    (deeper : ∀ q rest, t.comesTo? path d n = some q → t.look? q = some .dir → skipped n = false → ms = n :: rest →
      (rest ∈ further (q :: walked) q (join path n) ↔ rest ∈ further' (q :: walked) q (join path n))) :
    ms ∈ u.namesFrom skipped further walked d path n ↔ ms ∈ t.namesFrom skipped further' walked d path n := by
  rw [mem_namesFrom_iff, mem_namesFrom_iff, leads, same]
  refine exists_congr fun q => exists_congr fun rest => and_congr_right fun came => and_congr_right fun whole => ?_
  rw [looks q came]
  exact or_congr_right (and_congr_right fun look => and_congr_right fun _ => and_congr_right fun kept =>
    deeper q rest came look kept whole)

/-- Beside what is made and written a walk goes by the same names, as far as they count. -/
theorem mem_namesWithin_iff {path : String} (ht : t.Tidy) (hu : u.Tidy)
    (beside : t.Beside skipped p counts made written) (changes : Changes t u made written)
    (comes : t.Comes skipped p ns d) (arrives : t.Arrives path d) (there : t.look? d = some .dir)
    (hc : counts (ns ++ ms)) : ms ∈ u.namesWithin skipped k walked d path ↔ ms ∈ t.namesWithin skipped k walked d path := by
  induction k generalizing ns ms d walked path with
  | zero => rfl
  | succ k ih =>
    rw [namesWithin, namesWithin, List.mem_flatMap, List.mem_flatMap]
    refine exists_congr fun n => ?_
    by_cases same : u.look? (d ++ [n]) = t.look? (d ++ [n])
    · have entries : n ∈ u.entryNames d ↔ n ∈ t.entryNames d := by
        rw [mem_entryNames, mem_entryNames, same]
      rw [entries]
      refine and_congr_right fun hn => ?_
      have proper := ht.proper hn
      have looks := beside.look?_trail changes comes there proper same
      refine mem_namesFrom_congr same (beside.comesTo?_eq changes arrives comes there proper same)
        (fun q came => looks q (mem_trail_of_found (arrives.locate_entry ht proper came))) ?_
      rintro q rest came look kept rfl
      refine ih (comes.step proper (arrives.locate_entry ht proper came) look kept) (arrives.step ht came) look ?_
      rwa [← List.append_cons]
    · have begins {v : Tree} (h : ms ∈ v.namesFrom skipped (v.namesWithin skipped k) walked d path n) :
          ∃ rest, ms = n :: rest := by
        obtain ⟨-, rest, -, whole, -⟩ := mem_namesFrom_iff.1 h
        exact ⟨rest, whole⟩
      constructor
      · rintro ⟨hn, inside⟩
        have listed : ms ∈ u.namesWithin skipped (k + 1) walked d path := List.mem_flatMap.2 ⟨n, hn, inside⟩
        have way := way_of_mem_namesWithin hu (changes.grows.arrives arrives) listed
        obtain ⟨rest, rfl⟩ := begins inside
        exact absurd hc (beside.not_counts_after changes comes same way)
      · rintro ⟨hn, inside⟩
        have listed : ms ∈ t.namesWithin skipped (k + 1) walked d path := List.mem_flatMap.2 ⟨n, hn, inside⟩
        have way := way_of_mem_namesWithin ht arrives listed
        obtain ⟨rest, rfl⟩ := begins inside
        exact absurd hc (beside.not_counts_before changes comes same way)

/-- Beside what is made and written a walk from a path lists the same files, as far as they count. -/
theorem mem_filesBelow_congr {path file : String} {eligible : String → Bool} (ht : t.Tidy) (hu : u.Tidy)
    (found : t.locatePath path = .ok (.found p)) (there : t.look? p = some .dir)
    (beside : t.Beside skipped p (fun ns => eligible (joins path ns) = true) made written)
    (changes : Changes t u made written) (he : eligible file = true) :
    file ∈ u.filesBelow skipped path ↔ file ∈ t.filesBelow skipped path := by
  rw [filesBelow_eq_map hu (changes.grows.locatePath_found found) (le_max_left _ ((t.size + 1) * (t.size + 1))),
    filesBelow_eq_map ht found (le_max_right ((u.size + 1) * (u.size + 1)) _), List.mem_map, List.mem_map]
  refine exists_congr fun ns => and_congr_left fun whole => ?_
  exact mem_namesWithin_iff ht hu beside changes .here (arrives_of_found found) there (whole.symm ▸ he)

/-! ## Without links -/

/-- Where there are no links a walk comes to the places below. -/
theorem Comes.eq_append (h : t.Comes skipped p ns d) (free : t.LinkFree p) : d = p ++ ns := by
  induction h with
  | here => exact (List.append_nil p).symm
  | step way proper found look kept ih =>
    subst ih
    rw [← List.append_assoc]
    exact eq_append_of_found (fun m hm => List.mem_singleton.1 hm ▸ proper) (free.below _) found

/-- Where there are no links the names of a place below are the one way to it. -/
theorem beside_of_linkFree (free : t.LinkFree p) (ways : ∀ ms, ms ≠ [] → written (p ++ ms) → ¬ counts ms) :
    t.Beside skipped p counts made written where
  links ns d n target comes link := by
    rw [comes.eq_append free, List.append_assoc] at link
    exact absurd link (free _ target)
  ways ns d ms comes hms hw := by
    rw [comes.eq_append free, List.append_assoc] at hw
    exact ways (ns ++ ms) (fun none => hms (List.append_eq_nil_iff.1 none).2) hw

end InPlace.Files.Tree

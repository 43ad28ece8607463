import InPlace.Proofs.Files.Rewalks
import InPlace.Proofs.Project.Outputs

/-!
# Files that are tagged once more

When the files of a run are tagged again where the run has left its tree, each directory is there that was made, and each
file is written that was written, with the same text. If no file of the run is written by the run, all stays as it is.

Main statements: `changes_attempts` and `attempts_attempts`.
-/

namespace InPlace

open Files Files.Tree Text.Path

variable {run : TagRun} {parse : String → Option Tsx.Node} {files later : List String} {t t₁ c d : Tree}
  {o q : Place} {out file n : String}
  {ns : List String} {r : Tagging.Report}

namespace Files.Tree

theorem Tidy.storeMap {p : Place} (ht : t.Tidy) (there : t.look? p = some .dir) (hn : Proper n)
    (map : Option Tagging.SourceMap) : (t.storeMap p n map).1.Tidy := by
  cases map with
  | none => exact ht
  | some m => exact ht.storeIn there hn.mapPath m.text.toUTF8

theorem Tidy.deliver (ht : t.Tidy) (there : t.look? o = some .dir) (hn : ∀ m ∈ ns ++ [n], Proper m) :
    (t.deliver o ns n r).1.Tidy := by
  have last : Proper n := hn n (List.mem_append_right _ List.mem_cons_self)
  have dirs := ht.makeBelow there fun m hm => hn m (List.mem_append_left _ hm)
  rw [deliver_eq]
  refine fst_andThen dirs fun made => ?_
  have inside := look?_of_makeBelow there (Prod.ext rfl made)
  have file := dirs.storeIn inside last r.code.toUTF8
  exact fst_andThen file fun _ =>
    file.storeMap ((grows_storeIn inside n r.code.toUTF8).dir _ inside) last r.map

/-- Directories that were made are not made again. -/
theorem Wider.again (h : t.Wider c) (hg : c.Grows d) : Again t c d d where
  grows := .refl d
  looks q := (h q).elim (fun same => .inr ⟨rfl, same⟩) fun made => .inl ((hg.dir q made.2).trans made.2.symm)

/-- What was done to a tree and is done again changes nothing. -/
theorem Again.look?_eq {e : Tree} (h : Again t c c e) (q : Place) : e.look? q = c.look? q :=
  (h.looks q).elim id fun same => same.1

/-- The text of a file that is not written stays. -/
theorem Changes.readText_eq {made written : Place → Prop} (h : Changes t c made written) (there : t.isFile file = true)
    (apart : ∀ p, t.locatePath file = .ok (.found p) → ¬ written p) : c.readText file = t.readText file := by
  refine h.grows.readText_eq there fun p found => ?_
  obtain ⟨q, content, found', there⟩ := isFile_eq.1 there
  cases found.symm.trans found'
  cases h p with
  | same h => exact h
  | made _ before _ => cases before.symm.trans there
  | written hw _ _ => exact absurd hw (apart p found)

end Files.Tree

namespace TagRun

/-! ## Where a run makes directories and writes files -/

/-- The output directory is at a place, or can be made there. -/
def OutputAt (out : String) (t : Tree) (o : Place) : Prop :=
  ∃ t₁, outcome (t.makeAll (above (plainNames out))) = (t₁, true) ∧ t₁.LeadsTo (plainNames out) o

theorem OutputAt.eq {o' : Place} (h : OutputAt out t o)
    (leads : (t.makeAll (above (plainNames out))).1.LeadsTo (plainNames out) o') : o = o' := by
  obtain ⟨t₁, made, leads'⟩ := h
  rw [show (t.makeAll (above (plainNames out))).1 = t₁ from fst_of_outcome made] at leads
  exact leads'.unique leads

/-- A run makes a directory at a place where nothing is: on the way to its output directory, or on the way to an output. -/
def Makes (run : TagRun) (out : String) (files : List String) (t : Tree) (q : Place) : Prop :=
  t.look? q = none ∧ ((t.makeAll (above (plainNames out))).1.look? q = some .dir ∨
    ∃ o f ks, OutputAt out t o ∧ f ∈ files ∧ ks <+: (run.namesOf f).dropLast ∧ q = o ++ ks)

/-- A run writes a file at a place where no directory is: the output of a file or its map. -/
def Writes (run : TagRun) (out : String) (files : List String) (t : Tree) (q : Place) : Prop :=
  t.look? q ≠ some .dir ∧ ∃ o f, OutputAt out t o ∧ f ∈ files ∧
    (q = o ++ run.namesOf f ∨ run.options.sourceMaps = true ∧ q = o ++ run.mapNamesOf f)

theorem Begins.outputAt (h : Begins out t t₁ o) : OutputAt out t o :=
  ⟨t₁, h.made, h.leads⟩

/-- In every stage nothing has changed but where the run makes and writes. -/
theorem Stage.changes (h : Stage run files t t₁ o c) (begins : Begins out t t₁ o) :
    Changes t c (run.Makes out files t) (run.Writes out files t) := by
  rcases h with rfl | gained
  · exact .refl _ _ _
  · intro q
    -- what is nothing or a file where the output directory has been made was so before
    have before (h : t₁.look? q = none ∨ ∃ old, t₁.look? q = some (.file old)) :
        t.look? q = none ∨ ∃ old, t.look? q = some (.file old) := by
      rcases begins.wider q with same | ⟨nothing, -⟩
      · rwa [same] at h
      · exact .inl nothing
    have noDir (h : t.look? q = none ∨ ∃ old, t.look? q = some (.file old)) : t.look? q ≠ some .dir := by
      rcases h with h | ⟨old, h⟩ <;> rw [h] <;> nofun
    cases gained q with
    | same h =>
      rcases begins.wider q with same | ⟨nothing, made⟩
      · exact .same (h.trans same)
      · exact .made ⟨nothing, .inl (fst_of_outcome begins.made ▸ made)⟩ nothing (h.trans made)
    | made hf ks _ way place nothing after =>
      have nothing' : t.look? q = none := by
        rcases begins.wider q with same | ⟨nothing', -⟩
        · exact same.symm.trans nothing
        · exact nothing'
      exact .made ⟨nothing', .inr ⟨o, _, ks, begins.outputAt, hf, way, place⟩⟩ nothing' after
    | code hf place old after =>
      exact .written ⟨noDir (before old), o, _, begins.outputAt, hf, .inl place⟩ (before old) after
    | map hf maps place old after =>
      exact .written ⟨noDir (before old), o, _, begins.outputAt, hf, .inr ⟨maps, place⟩⟩ (before old) after

/-- The output directory is not made, or it is made and no link stands below it. -/
theorem begins_or_failed (absolute : isAbsolute out) (free : ∀ o, OutputAt out t o → t.LinkFree o) :
    (∃ t₁, outcome (t.makeAll (above (plainNames out))) = (t₁, false)) ∨ ∃ t₁ o, Begins out t t₁ o := by
  cases made : outcome (t.makeAll (above (plainNames out))) with
  | mk t₁ went =>
    cases went with
    | false => exact .inl ⟨t₁, rfl⟩
    | true =>
      obtain ⟨o, leads⟩ := leadsTo_of_makeAll (fun _ => plain_of_mem_plainNames)
        (clean_of_made (fun _ => plain_of_mem_plainNames) made) made
      exact .inr ⟨t₁, o, absolute, made, leads, (wider_of_outcome made).grows.linkFree (free o ⟨t₁, made, leads⟩)⟩

/-- Where a run changes its tree it makes a directory or writes a file. -/
theorem changes_attempts (absolute : isAbsolute out) (free : ∀ o, OutputAt out t o → t.LinkFree o)
    (named : ∀ f ∈ files, run.Named f) :
    Changes t (run.attempts parse out t files).1 (run.Makes out files t) (run.Writes out files t) := by
  rcases begins_or_failed absolute free with ⟨t₁, failed⟩ | ⟨t₁, o, begins⟩
  · rcases (attempts_of_failed parse absolute failed (.inl rfl) named).1 with same | same
    · rw [same]
      exact .refl _ _ _
    · intro q
      rw [same]
      rcases wider_of_outcome failed q with same | ⟨nothing, made⟩
      · exact .same same
      · exact .made ⟨nothing, .inl (fst_of_outcome failed ▸ made)⟩ nothing made
  · exact (gained_attempts begins (.inl rfl) (fun _ hf => hf) named).changes begins

/-! ## The tree stays tidy -/

theorem tidy_attempt (ht : c.Tidy) (begins : Begins out t t₁ o) (stage : Stage run files t t₁ o c)
    (named : run.Named file) : (run.attempt parse out c file).1.Tidy := by
  cases ok : tagSourceFile parse c run.options file run.root with
  | error e => rwa [attempt_of_error ok]
  | ok r =>
    obtain ⟨ns, n, hn⟩ := named.exists_eq
    obtain ⟨c₁, made, gained, -, tree⟩ := attempt_eq_deliver begins stage named hn ok
    rw [tree]
    exact (ht.of_outcome made).deliver (gained.grows.dir o begins.leads.dir) (hn ▸ named.proper)

theorem tidy_attempts_of_begins (ht : c.Tidy) (begins : Begins out t t₁ o) (stage : Stage run files t t₁ o c)
    (hs : ∀ f ∈ later, f ∈ files) (named : ∀ f ∈ files, run.Named f) : (run.attempts parse out c later).1.Tidy := by
  induction later generalizing c with
  | nil => exact ht
  | cons file later ih =>
    have hf := hs file List.mem_cons_self
    show (run.attempts parse out (run.attempt parse out c file).1 later).1.Tidy
    exact ih (tidy_attempt ht begins stage (named file hf)) (gained_attempt begins stage hf (named file hf)).1
      fun f hm => hs f (List.mem_cons_of_mem _ hm)

/-- A tidy tree is tidy after a run. -/
theorem tidy_attempts (ht : t.Tidy) (absolute : isAbsolute out) (free : ∀ o, OutputAt out t o → t.LinkFree o)
    (named : ∀ f ∈ files, run.Named f) : (run.attempts parse out t files).1.Tidy := by
  rcases begins_or_failed absolute free with ⟨t₁, failed⟩ | ⟨t₁, o, begins⟩
  · rcases (attempts_of_failed parse absolute failed (.inl rfl) named).1 with same | same
    · rwa [same]
    · rw [same]
      exact ht.of_outcome failed
  · exact tidy_attempts_of_begins ht begins (.inl rfl) (fun _ hf => hf) named

/-! ## Once more -/

/-- Before a file is written nothing is new but directories. -/
theorem grows_attempt (begins : Begins out t t₁ o) (stage : Stage run files t t₁ o c) (named : run.Named file) :
    c.Grows (run.attempt parse out c file).1 := by
  cases ok : tagSourceFile parse c run.options file run.root with
  | error e =>
    rw [attempt_of_error ok]
    exact .refl c
  | ok r =>
    obtain ⟨ns, n, hn⟩ := named.exists_eq
    obtain ⟨c₁, made, gained, -, tree⟩ := attempt_eq_deliver begins stage named hn ok
    rw [tree]
    exact (wider_of_outcome made).grows.trans (grows_deliver (gained.grows.dir o begins.leads.dir) ns n r)

/-- A tree grows while files are attempted. -/
theorem grows_attempts (begins : Begins out t t₁ o) (stage : Stage run files t t₁ o c) (hs : ∀ f ∈ later, f ∈ files)
    (named : ∀ f ∈ files, run.Named f) : c.Grows (run.attempts parse out c later).1 := by
  induction later generalizing c with
  | nil => exact .refl c
  | cons file later ih =>
    have hf := hs file List.mem_cons_self
    exact (grows_attempt begins stage (named file hf)).trans
      (ih (gained_attempt begins stage hf (named file hf)).1 fun f hm => hs f (List.mem_cons_of_mem _ hm))

/-- A file that reads as before is tagged as before, and what was written for it is written again. -/
theorem again_attempt (begins : Begins out t t₁ o) (stage : Stage run files t t₁ o c) (gained : Gained run files t₁ o d)
    (named : run.Named file) (same : d.readText file = c.readText file) (hg : (run.attempt parse out c file).1.Grows d) :
    Again c (run.attempt parse out c file).1 d (run.attempt parse out d file).1 := by
  have tagged : tagSourceFile parse d run.options file run.root = tagSourceFile parse c run.options file run.root := by
    rw [tagSourceFile, tagSourceFile, same]
  cases ok : tagSourceFile parse c run.options file run.root with
  | error e =>
    rw [attempt_of_error ok, attempt_of_error (tagged.trans ok)]
    exact .refl c d
  | ok r =>
    obtain ⟨ns, n, hn⟩ := named.exists_eq
    obtain ⟨c₁, made, gained₁, -, tree⟩ := attempt_eq_deliver begins stage named hn ok
    obtain ⟨d₁, -, -, there, tree'⟩ := attempt_eq_deliver begins (.inr gained) named hn (tagged.trans ok)
    have inside := gained₁.grows.dir o begins.leads.dir
    rw [tree] at hg ⊢
    rw [tree', there gained]
    exact ((wider_of_outcome made).again ((grows_deliver inside ns n r).trans hg)).trans (deliver_again inside hg).2

/-- Files that a run does not write are tagged again, one after the other, where the run has left the tree. -/
theorem again_attempts (begins : Begins out t t₁ o) (stage : Stage run files t t₁ o c) (gained : Gained run files t₁ o d)
    (hs : ∀ f ∈ later, f ∈ files) (named : ∀ f ∈ files, run.Named f)
    (read : ∀ f ∈ files, ∀ c, Stage run files t t₁ o c → c.readText f = t.readText f)
    (hg : (run.attempts parse out c later).1.Grows d) :
    Again c (run.attempts parse out c later).1 d (run.attempts parse out d later).1 := by
  induction later generalizing c d with
  | nil => exact .refl c d
  | cons file later ih =>
    have hf := hs file List.mem_cons_self
    have hs' : ∀ f ∈ later, f ∈ files := fun f hm => hs f (List.mem_cons_of_mem _ hm)
    have next : Stage run files t t₁ o (run.attempt parse out c file).1 :=
      (gained_attempt begins stage hf (named file hf)).1
    have next' : Gained run files t₁ o (run.attempt parse out d file).1 :=
      (gained_attempt begins (.inr gained) hf (named file hf)).2 gained
    have same : d.readText file = c.readText file := (read file hf d (.inr gained)).trans (read file hf c stage).symm
    have first := again_attempt begins stage gained (named file hf) same
      ((grows_attempts begins next hs' named).trans hg)
    exact first.trans (ih next next' hs' (hg.trans (grows_attempt begins (.inr gained) (named file hf))))

/-- A run over files that it does not write changes nothing when it is run again. -/
theorem attempts_attempts (absolute : isAbsolute out) (free : ∀ o, OutputAt out t o → t.LinkFree o)
    (named : ∀ f ∈ files, run.Named f) (there : ∀ f ∈ files, t.isFile f = true)
    (apart : ∀ f ∈ files, ∀ p, t.locatePath f = .ok (.found p) → ¬ run.Writes out files t p) (q : Place) :
    (run.attempts parse out (run.attempts parse out t files).1 files).1.look? q =
      (run.attempts parse out t files).1.look? q := by
  rcases begins_or_failed absolute free with ⟨t₁, failed⟩ | ⟨t₁, o, begins⟩
  · rcases (attempts_of_failed parse absolute failed (.inl rfl) named).1 with same | same
    · rw [same, same]
    · have again : outcome (t₁.makeAll (above (plainNames out))) = (t₁, false) := makeAll_of_failed failed (.inr rfl)
      rw [same]
      rcases (attempts_of_failed parse absolute again (.inl rfl) named).1 with same | same <;> rw [same]
  · have hs : ∀ f ∈ files, f ∈ files := fun _ hf => hf
    have read (f : String) (hf : f ∈ files) (c : Tree) (stage : Stage run files t t₁ o c) : c.readText f = t.readText f :=
      (stage.changes begins).readText_eq (there f hf) (apart f hf)
    rcases gained_attempts begins (.inl rfl) hs named with same | gained
    · rw [same, same]
    · exact (again_attempts begins (.inl rfl) gained hs named read (.refl _)).look?_eq q

end TagRun

end InPlace

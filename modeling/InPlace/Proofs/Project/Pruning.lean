import InPlace.Proofs.Files.Depths
import InPlace.Proofs.Files.Relative
import InPlace.Proofs.Project.Listing

/-!
# Directories that are not walked

A walk goes past vendor directories, which it knows by their names, and of the files that it lists only the eligible
ones are taken, none of whose paths behind the root has the name of a vendor directory in it. The two agree: what is
below a directory that is gone past is not eligible, wherever the target is, so the files are those that a walk
through everything finds. The target itself is walked whatever it is called; inside of a vendor directory there is
then nothing to take.

Main statement: `sourceFiles_unpruned`.
-/

namespace InPlace

open Files Files.Tree Text Text.Path

variable {t : Tree} {p : Place} {o : Tagging.Options} {excludes : List Glob} {root rel path target n : String}
  {ns ms : List String} {k : Nat} {walked : List Place} {skipped : String → Bool}

namespace Files.Tree

/-- What leads to something in a tree are names as an operating system keeps them. -/
theorem proper_of_look? (ht : t.Tidy) (h : t.look? (p ++ ns) ≠ none) : ∀ n ∈ ns, Proper n := by
  induction ns generalizing p with
  | nil => nofun
  | cons n ns ih =>
    rw [List.append_cons] at h
    have first : t.look? (p ++ [n]) ≠ none := by
      by_cases last : ns = []
      · rwa [last, List.append_nil] at h
      · rw [look?_of_append h last]
        exact Option.some_ne_none _
    exact List.forall_mem_cons.2 ⟨ht.proper (mem_entryNames.2 first), ih h⟩

/-! ## Walks that go past directories -/

/-- What is below a directory that a walk goes past is not kept. -/
def Drops (skipped : String → Bool) (keep : String → Bool) (path : String) : Prop :=
  ∀ ms n ns, (∀ m ∈ ms ++ n :: ns, Proper m) → skipped n = true → ns ≠ [] → keep (joins path (ms ++ n :: ns)) = false

theorem Drops.join {keep : String → Bool} (h : Drops skipped keep path) (hn : Proper n) :
    Drops skipped keep (join path n) := by
  intro ms m ns proper hm hns
  exact h (n :: ms) m ns (List.forall_mem_cons.2 ⟨hn, proper⟩) hm hns

/-- Of the files in a directory that is gone past none is kept. -/
theorem Drops.filter_eq_nil {keep : String → Bool} (h : Drops skipped keep path) (ht : t.Tidy)
    (arrives : t.Arrives (Text.Path.join path n) p) (hn : Proper n) (past : skipped n = true) {further : String → Bool} :
    (t.filesWithin further k walked p (Text.Path.join path n)).filter keep = [] := by
  refine List.filter_eq_nil_iff.2 fun file hf => ?_
  obtain ⟨ns, rfl, way, -⟩ := exists_way_of_mem_filesWithin ht arrives hf
  exact Bool.eq_false_iff.1 (h [] n ns (List.forall_mem_cons.2 ⟨hn, way.proper⟩) past way.ne_nil)

/-- A walk that goes past directories lists what a walk through everything lists, as far as it is kept. -/
theorem filter_filesWithin {keep : String → Bool} (ht : t.Tidy) (arrives : t.Arrives path p)
    (h : Drops skipped keep path) :
    (t.filesWithin skipped k walked p path).filter keep =
      (t.filesWithin (fun _ => false) k walked p path).filter keep := by
  induction k generalizing walked p path with
  | zero => rfl
  | succ k ih =>
    by_cases hp : t.look? p = some .dir
    · obtain ⟨es, hes⟩ := look?_eq_dir_iff.1 hp
      rw [filesWithin_succ hes, filesWithin_succ hes, List.filter_flatMap, List.filter_flatMap]
      refine List.flatMap_congr fun e he => ?_
      obtain ⟨n, u⟩ := e
      have proper := (ht p es hes).proper _ he
      have inner {walked : List Place} {q : Place} (leads : t.locatePath (Text.Path.join path n) = .ok (.found q)) :
          (if skipped n then [] else t.filesWithin skipped k walked q (Text.Path.join path n)).filter keep =
            (t.filesWithin (fun _ => false) k walked q (Text.Path.join path n)).filter keep := by
        split
        · rename_i past
          exact (h.filter_eq_nil ht (arrives_of_found leads) proper past).symm
        · exact ih (arrives_of_found leads) (h.join proper)
      cases u with
      | file content => rfl
      | dir fs => exact inner (arrives.found_of_mem ht hes he nofun)
      | link target =>
        rw [filesAt, filesAt]
        split
        · rename_i there leads
          split
          · rfl
          · cases walked.contains there with
            | true => rfl
            | false =>
              simp only [Bool.false_or, Bool.false_eq_true, if_false]
              exact inner leads
          · rfl
        · rfl
    · rw [filesWithin_of_not_dir hp, filesWithin_of_not_dir hp]

end Files.Tree

/-! ## The files of a target -/

/-- What is below a vendor directory is not eligible, wherever it is behind the root. -/
theorem drops_isEligible (relative : isAbsolute rel = false) (vendors : ∀ v ∈ o.vendorDirs, '\\' ∉ v.toList) :
    Drops o.vendorDirs.contains (isEligible o excludes root) (join root rel) := by
  intro ms n ns proper past _
  have vendor : n ∈ o.vendorDirs := List.contains_iff_mem.1 past
  obtain ⟨left, base⟩ := exists_components_join root relative
  have whole := components_joins (join root rel) proper
  rw [base, List.append_assoc] at whole
  have part := mem_parts_relativeTo whole (m := n)
    (List.mem_append_right _ (List.mem_map_of_mem (List.mem_append_right _ List.mem_cons_self))) (vendors n vendor)
  have vendored : o.isVendored (relativeTo root (joins (join root rel) (ms ++ n :: ns))) = true :=
    List.any_eq_true.2 ⟨n, part, past⟩
  rw [isEligible, Tagging.Options.appliesTo, vendored]
  simp

/-- A list of the eligible files below a directory, as a walk through everything finds them. -/
structure Unpruned (t : Tree) (o : Tagging.Options) (excludes : List Glob) (root target : String) (p : Place)
    (files : List String) : Prop where
  walk : files = ((t.filesBelow (fun _ => false) target).filter (isEligible o excludes root)).mergeSort
    fun a b => precedes (names a) (names b)
  sorted : files.Pairwise fun a b => precedes (names a) (names b)
  nodup : files.Nodup
  mem_iff : ∀ file, file ∈ files ↔ ∃ ns, ns ≠ [] ∧ file = joins target ns ∧
    (∃ content, t.look? (p ++ ns) = some (.file content)) ∧ o.appliesTo (relativeTo root file) = true ∧
      ∀ g ∈ excludes, g.accepts (relativeTo root file) = false

theorem isEligible_iff {file : String} : isEligible o excludes root file = true ↔
    o.appliesTo (relativeTo root file) = true ∧ ∀ g ∈ excludes, g.accepts (relativeTo root file) = false := by
  rw [isEligible, Bool.and_eq_true, Bool.not_eq_true', List.any_eq_false]
  simp only [Bool.not_eq_true]

/-- The files below a directory that are tagged are all that a walk through everything finds and that the options and
the excluded patterns allow, in order and each once: to go past vendor directories saves time and nothing else. -/
theorem sourceFiles_unpruned (ht : t.Tidy) (relative : isAbsolute rel = false)
    (found : t.locatePath (join root rel) = .ok (.found p)) (dir : t.look? p = some .dir) (free : t.LinkFree p)
    (excludes : List Glob) (vendors : ∀ v ∈ o.vendorDirs, '\\' ∉ v.toList) :
    Unpruned t o excludes root (join root rel) p (sourceFiles t o excludes (join root rel) root) := by
  have directory : t.isFile (join root rel) = false := by
    rw [Bool.eq_false_iff]
    intro file
    obtain ⟨q, content, found', look⟩ := isFile_eq.1 file
    cases found.symm.trans found'
    rw [look] at dir
    cases dir
  -- what the walk goes past is a vendor directory, and nothing below one is eligible
  have same : (t.filesBelow o.vendorDirs.contains (join root rel)).filter (isEligible o excludes root) =
      (t.filesBelow (fun _ => false) (join root rel)).filter (isEligible o excludes root) := by
    rw [filesBelow, filesBelow, found]
    exact filter_filesWithin ht (arrives_of_found found) (drops_isEligible relative vendors)
  have walk : sourceFiles t o excludes (join root rel) root =
      ((t.filesBelow (fun _ => false) (join root rel)).filter (isEligible o excludes root)).mergeSort
        fun a b => precedes (names a) (names b) := by
    rw [sourceFiles, directory, ← same]
    rfl
  refine ⟨walk, ?_, ?_, fun file => ?_⟩
  · rw [walk]
    exact @List.pairwise_mergeSort _ (fun a b => precedes (names a) (names b)) (fun _ _ _ => precedes_trans)
      (fun _ _ => precedes_total _ _) _
  · rw [walk, (List.mergeSort_perm _ _).nodup_iff]
    exact (nodup_filesBelow ht _).filter _
  · rw [walk, List.mem_mergeSort, List.mem_filter, isEligible_iff, mem_filesBelow_iff ht found free]
    constructor
    · rintro ⟨⟨ns, nonempty, -, name, look, -⟩, allowed⟩
      exact ⟨ns, nonempty, name, look, allowed⟩
    · rintro ⟨ns, nonempty, name, ⟨content, look⟩, allowed⟩
      have proper := proper_of_look? ht (look ▸ Option.some_ne_none _)
      exact ⟨⟨ns, nonempty, proper, name, ⟨content, look⟩, fun _ _ => rfl⟩, allowed⟩

/-- A target with a vendor directory below it, of which nothing is taken. -/
theorem sourceFiles_unpruned_vendor :
    let t : Tree := .dir [("p", .dir [("src", .dir [
      ("lib", .dir [("node_modules", .dir [("m", .dir [("x.ts", .file "1".toUTF8)])]), ("y.js", .file "2".toUTF8)]),
      ("notes.txt", .file "3".toUTF8), ("z.ts", .file "4".toUTF8)])])]
    Unpruned t {} [] "/p" "/p/./src" ["p", "src"] (sourceFiles t {} [] "/p/./src" "/p") ∧
      sourceFiles t {} [] "/p/./src" "/p" = ["/p/./src/lib/y.js", "/p/./src/z.ts"] := by
  intro t
  have free : t.LinkFree ["p", "src"] := (linkFree_of_hasNoLink (by decide +kernel)).below ["p", "src"]
  have listed : Unpruned t {} [] "/p" "/p/./src" ["p", "src"] (sourceFiles t {} [] "/p/./src" "/p") :=
    @sourceFiles_unpruned t ["p", "src"] {} "/p" "./src" (tidy_of_isTidy _ (by decide +kernel)) (by decide)
      (by decide +kernel) (by decide +kernel) free [] (by decide +kernel)
  have walked : (t.filesBelow (fun _ => false) "/p/./src").filter (isEligible {} [] "/p") =
      ["/p/./src/lib/y.js", "/p/./src/z.ts"] := by decide +kernel
  refine ⟨listed, listed.walk.trans ?_⟩
  show ((t.filesBelow (fun _ => false) "/p/./src").filter (isEligible {} [] "/p")).mergeSort _ = _
  rw [walked]
  exact List.mergeSort_of_pairwise (by decide +kernel)

end InPlace

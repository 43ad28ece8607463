import InPlace.Proofs.Files.Below
import InPlace.Proofs.Project.Listing

/-!
# Projects that are moved

Of the paths of a project's files only what is behind the root is used, to choose the files, to put them in order and to
name their elements. So where a project is does not matter, as long as the links that a walk through it comes to lead to
the same from wherever it is. Links that name the place of the project, or that need all the links that a path may go
through, do not.

Main statement: `sourceFiles_moved`.
-/

namespace InPlace

open Files Files.Tree Text Text.Path

variable {t t' : Tree} {pairs : List (Place × Place)} {p : Place} {root root' target file : String}
  {parse : String → Option Tsx.Node} {o : Tagging.Options} {excludes : List Glob} {bound : Nat}

/-! ## What is behind the root -/

theorem isEligible_join (hr : isAbsolute root) (hr' : isAbsolute root') (relative : isAbsolute file = false) :
    isEligible o excludes root (join root file) = isEligible o excludes root' (join root' file) := by
  rw [isEligible, isEligible, relativeTo_join hr hr' relative]

/-- The order of paths behind a root is that of the paths without it. -/
theorem precedes_join {file' : String} (hr : isAbsolute root) (relative : isAbsolute file = false)
    (relative' : isAbsolute file' = false) :
    precedes (names (join root file)) (names (join root file')) = precedes (plainNames file) (plainNames file') := by
  have names_join {path : String} (h : isAbsolute path = false) :
      names (join root path) = ("" :: plainNames root) ++ plainNames path := by
    rw [names_eq (isAbsolute_join hr), plainNames, pathNames_join _ h, List.filter_append]
    rfl
  rw [names_join relative, names_join relative', precedes_append]

/-- Paths behind a root, those of them that are eligible, in order. -/
def ordered (o : Tagging.Options) (excludes : List Glob) (root : String) (files : List String) : List String :=
  (files.filter fun file => isEligible o excludes root (join root file)).mergeSort fun file file' =>
    precedes (plainNames file) (plainNames file')

theorem mem_of_mem_ordered {files : List String} (h : file ∈ ordered o excludes root files) : file ∈ files :=
  (List.mem_filter.1 (List.mem_mergeSort.1 h)).1

/-- It does not depend on the root which paths behind it are eligible, and in which order. -/
theorem ordered_eq {files : List String} (hr : isAbsolute root) (hr' : isAbsolute root')
    (relative : ∀ file ∈ files, isAbsolute file = false) :
    ((files.map (join root)).filter (isEligible o excludes root)).mergeSort (fun a b => precedes (names a) (names b)) =
      (ordered o excludes root' files).map (join root) := by
  have same : (files.filter fun file => isEligible o excludes root' (join root' file)) =
      files.filter fun file => isEligible o excludes root (join root file) :=
    List.filter_congr fun file hf => isEligible_join hr' hr (relative file hf)
  rw [ordered, same, List.filter_map]
  refine (List.map_mergeSort fun a ha b hb => ?_).symm
  exact (precedes_join hr (relative a (List.mem_filter.1 ha).1) (relative b (List.mem_filter.1 hb).1)).symm

/-! ## What is found -/

/-- The files that are found for a target, by their paths behind the root: the target itself, if it is a file, or the files
below it. -/
def candidates (t : Tree) (o : Tagging.Options) (bound : Nat) (root target : String) : List String :=
  if t.isFile (join root target) then [target]
  else
    match t.placeAt? (join root target) with
    | some p => (t.namesWithin o.vendorDirs.contains bound [p] p (join root target)).map (joins target)
    | none => []

/-- The names on the way to a file are joined to the target alike, with the root in front or without it. -/
theorem joins_listed {ns : List String} {k : Nat} (ht : t.Tidy) (hr : isAbsolute root)
    (relative : isAbsolute target = false)
    (found : t.placeAt? (join root target) = some p)
    (hns : ns ∈ t.namesWithin o.vendorDirs.contains k [p] p (join root target)) :
    joins (join root target) ns = join root (joins target ns) ∧ isAbsolute (joins target ns) = false :=
  joins_join hr relative fun n hn =>
    ((way_of_mem_namesWithin ht (arrives_of_found (placeAt?_eq_some.1 found)) hns).proper n hn).toPlain

/-- The files that are listed are those that are found, by their paths behind the root. -/
theorem sourceFiles_eq (ht : t.Tidy) (hr : isAbsolute root) (relative : isAbsolute target = false)
    (hb : (t.size + 1) * (t.size + 1) ≤ bound) : sourceFiles t o excludes (join root target) root =
      (((candidates t o bound root target).map (join root)).filter (isEligible o excludes root)).mergeSort
        fun a b => precedes (names a) (names b) := by
  unfold candidates
  cases single : t.isFile (join root target) with
  | true =>
    have short : (([target].map (join root)).filter (isEligible o excludes root)).Pairwise
        fun a b => precedes (names a) (names b) = true := (List.pairwise_singleton _ _).filter _
    rw [if_pos rfl, List.mergeSort_of_pairwise short, sourceFiles, if_pos single]
    rfl
  | false =>
    rw [if_neg Bool.false_ne_true, sourceFiles, single, if_neg Bool.false_ne_true]
    cases found : t.placeAt? (join root target) with
    | none =>
      have nothing : t.filesBelow o.vendorDirs.contains (join root target) = [] := by
        unfold filesBelow
        split
        · rename_i p there
          cases found.symm.trans (placeAt?_eq_some.2 there)
        · rfl
      rw [nothing]
      rfl
    | some p =>
      dsimp only
      have behind : (t.namesWithin o.vendorDirs.contains bound [p] p (join root target)).map (joins (join root target)) =
          (t.namesWithin o.vendorDirs.contains bound [p] p (join root target)).map (join root ∘ joins target) :=
        List.map_congr_left fun ns hns => (joins_listed ht hr relative found hns).1
      rw [filesBelow_eq_map ht (placeAt?_eq_some.1 found) hb, List.map_map, behind]

section Abreast

variable (ht : t.Tidy) (ht' : t'.Tidy) (hr : isAbsolute root) (hr' : isAbsolute root')
  (relative : isAbsolute target = false)
  (sharing : Sharing t t' pairs)
  (parallel : Parallel t t' pairs o.vendorDirs.contains (join root target) (join root' target))

include sharing parallel

/-- Walks that are abreast find the same. -/
theorem candidates_eq (bound : Nat) : candidates t' o bound root' target = candidates t o bound root target := by
  unfold candidates
  rw [(isFile_of_leadAlike parallel.start sharing).1]
  split
  · rfl
  · have start := parallel.start
    generalize left : t.placeAt? (join root target) = l at start
    generalize right : t'.placeAt? (join root' target) = l' at start
    cases start with
    | there hp =>
      have abreast := (Abreast.start hp).namesWithin_eq sharing parallel (placeAt?_eq_some.1 left) bound
      exact congrArg (List.map (joins target)) abreast.symm
    | nowhere => rfl

include ht ht' hr hr' relative

/-- What they find is read alike. -/
theorem read_of_mem_candidates (hf : file ∈ candidates t o bound root target) :
    isAbsolute file = false ∧ t.read (join root file) = t'.read (join root' file) := by
  unfold candidates at hf
  split at hf
  · rename_i single
    rw [List.mem_singleton.1 hf]
    exact ⟨relative, (isFile_of_leadAlike parallel.start sharing).2 single⟩
  · have start := parallel.start
    generalize left : t.placeAt? (join root target) = l at start hf
    generalize right : t'.placeAt? (join root' target) = l' at start
    cases start with
    | nowhere => cases hf
    | @there p p' hp =>
      obtain ⟨ns, hns, rfl⟩ := List.mem_map.1 hf
      have found := placeAt?_eq_some.1 left
      have found' := placeAt?_eq_some.1 right
      obtain ⟨q, q', hq, leads, leads'⟩ := (Abreast.start hp).leadAlike sharing parallel found ht ht' found' bound hns
      have same := (Abreast.start hp).namesWithin_eq sharing parallel found bound
      have hns' : ns ∈ t'.namesWithin o.vendorDirs.contains bound [p'] p' (join root' target) := same ▸ hns
      obtain ⟨whole, relative'⟩ := joins_listed ht hr relative left hns
      have whole' := (joins_listed ht' hr' relative right hns').1
      rw [List.nil_append] at leads leads'
      rw [whole] at leads
      rw [whole'] at leads'
      exact ⟨relative', sharing.read_eq hq leads leads'⟩

end Abreast

/-! ## Two roots -/

/-- Behind two roots the same files are listed, in the same order, and each is tagged under the same path with the same
result. -/
structure ListedAlike (parse : String → Option Tsx.Node) (t t' : Tree) (o : Tagging.Options) (excludes : List Glob)
    (root root' target : String) (files : List String) : Prop where
  left : sourceFiles t o excludes (join root target) root = files.map (join root)
  right : sourceFiles t' o excludes (join root' target) root' = files.map (join root')
  relative : ∀ file ∈ files, isAbsolute file = false
  path : ∀ file ∈ files, relativeTo root (join root file) = relativeTo root' (join root' file)
  tagged : ∀ file ∈ files, tagSourceFile parse t o (join root file) root = tagSourceFile parse t' o (join root' file) root'

/-- A project with a file, a link to it, and a link that leads out of it. -/
def linkedProject : Tree :=
  .dir [("src", .dir [("a.tsx", .file "<b/>".toUTF8), ("o.ts", .link "/lib/o.ts"), ("z.tsx", .link "a.tsx")])]

/-- A project with a link to a file of its own that names the place of the project. -/
def namedProject : Tree :=
  .dir [("real.ts", .file "x".toUTF8), ("src", .dir [("a.ts", .link "/p/real.ts")])]

/-- A project with a link to which a path must go through forty links, as many as there may be. -/
def chainedProject : Tree :=
  .dir [("src", .dir [("a.ts", .link "../c/1")]), ("c", .dir ((List.range 39).map
    (fun i => (toString (i + 1), Tree.link (toString (i + 2)))) ++ [("40", .file "x".toUTF8)]))]

end InPlace

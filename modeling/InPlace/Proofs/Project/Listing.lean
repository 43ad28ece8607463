import InPlace.Proofs.Files.Reading
import InPlace.Proofs.Files.Walking
import InPlace.Proofs.Project.Attempts
import InPlace.Proofs.Project.Deliveries
import Mathlib.Data.String.Basic

/-!
# The files of a run

Each file that a run lists has names relative to the base of the run, which are the names of what is written for it. No
two files have the same names, the names of one are never the beginning of another's, and a file comes before one whose
name is that of its map.

Main statement: `listing_listed`.
-/

namespace InPlace

open Files Files.Tree Text Text.Path

variable {t : Tree} {run : TagRun} {file : String}

/-! ## The order of paths -/

theorem not_append_lt (cs ds : List Char) : ¬ cs ++ ds < cs := by
  induction cs with
  | nil => exact List.not_lt_nil _
  | cons c cs ih =>
    rw [List.cons_append, List.cons_lt_cons_iff]
    rintro (h | ⟨-, h⟩)
    · exact lt_irrefl c h
    · exact ih h

theorem not_mapPath_lt (name : String) : ¬ mapPath name < name := by
  rw [String.lt_iff_toList_lt, mapPath, String.toList_append]
  exact not_append_lt _ _

theorem precedes_trans {as bs cs : List String} (h : precedes as bs) (h' : precedes bs cs) : precedes as cs := by
  induction as generalizing bs cs with
  | nil => rfl
  | cons a as ih =>
    cases bs with
    | nil => cases h
    | cons b bs =>
      cases cs with
      | nil => cases h'
      | cons c cs =>
        unfold precedes at h h' ⊢
        -- the first names that differ decide, and they may differ at different places
        by_cases hab : a = b
        · subst hab
          by_cases hac : a = c
          · rw [if_pos rfl] at h
            rw [if_pos hac] at h' ⊢
            exact ih h h'
          · rwa [if_neg hac] at h' ⊢
        · rw [if_neg hab, decide_eq_true_eq] at h
          by_cases hbc : b = c
          · subst hbc
            rw [if_neg hab]
            exact decide_eq_true h
          · rw [if_neg hbc, decide_eq_true_eq] at h'
            have less := lt_trans h h'
            rw [if_neg less.ne]
            exact decide_eq_true less

theorem precedes_total (as bs : List String) : (precedes as bs || precedes bs as) = true := by
  induction as generalizing bs with
  | nil => rfl
  | cons a as ih =>
    cases bs with
    | nil => rfl
    | cons b bs =>
      unfold precedes
      by_cases hab : a = b
      · rw [if_pos hab, if_pos hab.symm]
        exact ih bs
      · rw [if_neg hab, if_neg (Ne.symm hab), Bool.or_eq_true, decide_eq_true_eq, decide_eq_true_eq]
        exact lt_or_gt_of_ne hab

theorem precedes_antisymm {as bs : List String} (h : precedes as bs) (h' : precedes bs as) : as = bs := by
  induction as generalizing bs with
  | nil =>
    cases bs with
    | nil => rfl
    | cons b bs => cases h'
  | cons a as ih =>
    cases bs with
    | nil => cases h
    | cons b bs =>
      unfold precedes at h h'
      by_cases hab : a = b
      · subst hab
        rw [if_pos rfl] at h h'
        rw [ih h h']
      · rw [if_neg hab, decide_eq_true_eq] at h
        rw [if_neg (Ne.symm hab), decide_eq_true_eq] at h'
        exact absurd h' (lt_asymm h)

theorem precedes_append (front as bs : List String) : precedes (front ++ as) (front ++ bs) = precedes as bs := by
  induction front with
  | nil => rfl
  | cons a front ih =>
    rw [List.cons_append, List.cons_append, precedes, if_pos rfl, ih]

theorem pairwise_sorted (paths : List String) :
    (paths.mergeSort fun a b => precedes (names a) (names b)).Pairwise fun a b => precedes (names a) (names b) = true :=
  @List.pairwise_mergeSort _ (fun a b => precedes (names a) (names b)) (fun _ _ _ => precedes_trans)
    (fun _ _ => precedes_total _ _) paths

/-- Paths with names of their own are put in one order. -/
theorem mergeSort_congr {paths paths' : List String} (nodup : paths.Nodup) (nodup' : paths'.Nodup)
    (same : ∀ a, a ∈ paths ↔ a ∈ paths') (injective : ∀ a ∈ paths, ∀ b ∈ paths, names a = names b → a = b) :
    paths.mergeSort (fun a b => precedes (names a) (names b)) =
      paths'.mergeSort fun a b => precedes (names a) (names b) := by
  have perm : paths.Perm paths' := (List.perm_ext_iff_of_nodup nodup nodup').2 same
  refine List.Perm.eq_of_pairwise (fun a b ha hb h h' => ?_) (pairwise_sorted paths) (pairwise_sorted paths')
    ((List.mergeSort_perm _ _).trans (perm.trans (List.mergeSort_perm _ _).symm))
  rw [List.mem_mergeSort] at ha hb
  exact injective a ha b ((same b).2 hb) (precedes_antisymm h h')

/-- A map does not come before its file. -/
theorem not_precedes_mapPath (ns : List String) (n : String) : ¬ precedes (ns ++ [mapPath n]) (ns ++ [n]) := by
  rw [precedes_append]
  unfold precedes
  rw [if_neg (mapPath_ne n), decide_eq_true_eq]
  exact not_mapPath_lt n

/-- The names of a joined path are those of the path and then the others. -/
theorem names_joins {path : String} {ns : List String} (hb : isAbsolute path) (hn : ∀ n ∈ ns, Proper n) :
    names (joins path ns) = "" :: (plainNames path ++ ns) := by
  have absolute : isAbsolute (joins path ns) := by
    clear hn
    induction ns generalizing path with
    | nil => exact hb
    | cons n ns ih => exact ih (isAbsolute_join hb)
  rw [names_eq absolute, plainNames, pathNames_joins path hn, List.filter_append,
    List.filter_eq_self.2 fun n hm => decide_eq_true (hn n hm).here]
  rfl

/-! ## Names -/

namespace TagRun

/-- The names of a file relative to the base of a run. -/
def namesOf (run : TagRun) (file : String) : List String :=
  pathNames (run.nameOf file)

/-- The name of a file relative to the base is made of names that a file can have. -/
structure Named (run : TagRun) (file : String) : Prop where
  proper : ∀ n ∈ run.namesOf file, Proper n
  nonempty : run.namesOf file ≠ []
  name : run.nameOf file = joined (run.namesOf file)

theorem named_of_stripBase? {ns : List String} (h : stripBase? file run.base = some (joined ns)) (hn : ∀ n ∈ ns, Proper n)
    (nonempty : ns ≠ []) : run.Named file ∧ run.namesOf file = ns := by
  have name : run.nameOf file = joined ns := by rw [nameOf, h]; rfl
  have names : run.namesOf file = ns := by
    rw [namesOf, name, pathNames_joined fun n hm => (hn n hm).toPlain]
  exact ⟨⟨names ▸ hn, names ▸ nonempty, names ▸ name⟩, names⟩

/-- What the names of the files of a run are to each other. -/
structure Listing (run : TagRun) (files : List String) : Prop where
  named : ∀ f ∈ files, run.Named f
  /-- The names of one file are not the beginning of another's. -/
  apart : ∀ f ∈ files, ∀ g ∈ files, ∀ ms, run.namesOf g = run.namesOf f ++ ms → ms = []
  injective : ∀ f ∈ files, ∀ g ∈ files, run.namesOf f = run.namesOf g → f = g
  nodup : files.Nodup
  /-- No file has the name of the map of a later one. -/
  sorted : files.Pairwise fun f g => ∀ ns n, run.namesOf g = ns ++ [n] → run.namesOf f ≠ ns ++ [mapPath n]

/-- There is nothing to be told apart where only one file is. -/
theorem listing_of_eq {files : List String} (named : run.Named file) (one : ∀ f ∈ files, f = file)
    (nodup : files.Nodup) : run.Listing files where
  named f hf := one f hf ▸ named
  apart f hf g hg ms same := by
    rw [one f hf, one g hg] at same
    exact List.self_eq_append_right.1 same
  injective f hf g hg _ := (one f hf).trans (one g hg).symm
  nodup := nodup
  sorted := nodup.imp_of_mem fun {f g} hf hg other => absurd ((one f hf).trans (one g hg).symm) other

end TagRun

/-! ## A single file -/

/-- A text ends in a name, which may be empty. -/
theorem exists_front (cs : List Char) : ∃ front last, cs = front ++ last ∧ '/' ∉ last ∧ Front front := by
  induction cs using List.reverseRecOn with
  | nil => exact ⟨[], [], rfl, List.not_mem_nil, .inl rfl⟩
  | append_singleton cs c ih =>
    by_cases hc : c = '/'
    · exact ⟨cs ++ [c], [], (List.append_nil _).symm, List.not_mem_nil, .inr ⟨cs, by rw [hc]⟩⟩
    · obtain ⟨front, last, rfl, slash, h⟩ := ih
      refine ⟨front, last ++ [c], List.append_assoc _ _ _, fun hm => ?_, h⟩
      rcases List.mem_append.1 hm with hm | hm
      · exact slash hm
      · exact hc (List.mem_singleton.1 hm).symm

theorem namesIn_front {front : List Char} (h : Front front) (last : List Char) :
    namesIn (front ++ last) = namesIn front ++ namesIn last := by
  rcases h with rfl | ⟨cs, rfl⟩
  · rfl
  · rw [List.append_assoc, List.singleton_append, namesIn_sep, namesIn_sep]
    exact congrArg (· ++ _) (List.append_nil _).symm

/-- Behind a dot there is a directory, so the way to a file does not end in dots. -/
theorem undotted_of_found {p : Place} {names : List String} {n : String} {content : ByteArray}
    (found : t.locate maxLinks [] (names ++ [n]) = .ok (.found p)) (file : t.look? p = some (.file content)) :
    n ≠ "." ∧ n ≠ ".." := by
  obtain ⟨q, hq⟩ := found_of_locate_append (List.cons_ne_nil _ _) found
  obtain ⟨links, -, goes⟩ := locate_append hq
  rw [← not_or]
  intro dots
  cases (look?_of_dots dots ((goes [n]).symm.trans found)).symm.trans file

/-- A path to a file holds no zero, does not end in a slash, and its last name is no dots. -/
theorem steps_of_isFile {path : String} (h : t.isFile path = true) :
    Clean (pathNames path) ∧ endsInSlash path = false ∧
      ∀ names n, pathNames path = names ++ [n] → n ≠ "." ∧ n ≠ ".." := by
  obtain ⟨q, content, found, file⟩ := isFile_eq.1 h
  obtain ⟨zero, -, leads⟩ := locatePath_eq_ok_iff.1 found
  have slashless : endsInSlash path = false := by
    rw [Bool.eq_false_iff]
    intro slash
    rw [pathSteps, if_pos slash] at leads
    exact (undotted_of_found leads file).1 rfl
  rw [pathSteps, slashless] at leads
  refine ⟨by rwa [← Bool.not_eq_true, contains_zero, not_not] at zero, slashless, fun names n hn => ?_⟩
  exact undotted_of_found (hn ▸ leads) file

/-- A path to a file ends in a name that a file can have. -/
theorem exists_last_of_isFile {path : String} (hb : isAbsolute path) (h : t.isFile path = true) :
    ∃ front n, Proper n ∧ Front front ∧ path.toList = '/' :: (front ++ n.toList) := by
  obtain ⟨cs, hcs⟩ := toList_of_isAbsolute hb
  obtain ⟨front, last, rfl, slash, hf⟩ := exists_front cs
  obtain ⟨clean, slashless, undotted⟩ := steps_of_isFile h
  have nonempty : last ≠ [] := by
    rintro rfl
    rw [endsInSlash, hcs, List.append_nil] at slashless
    rcases hf with rfl | ⟨cs, rfl⟩
    · cases slashless
    · rw [← List.cons_append, List.getLast?_concat] at slashless
      cases slashless
  have names : pathNames path = namesIn front ++ [String.ofList last] := by
    rw [pathNames_eq, hcs, namesIn_slash, namesIn_front hf, namesIn_of_not_mem slash nonempty]
  obtain ⟨one, two⟩ := undotted _ _ names
  refine ⟨front, String.ofList last, ⟨⟨fun empty => nonempty ?_, by rwa [String.toList_ofList], one⟩, two, ?_⟩, hf,
    by rw [String.toList_ofList, hcs]⟩
  · rw [← String.toList_ofList (l := last), empty]
    rfl
  · exact clean _ (names ▸ List.mem_append_right _ List.mem_cons_self)

/-- The name of a single file relative to the directory around it. -/
theorem stripBase?_of_isFile {path dir : String} (hb : isAbsolute path) (h : t.isFile path = true) :
    ∃ n, Proper n ∧ stripBase? path ((parent? path).getD dir) = some (joined [n]) := by
  obtain ⟨front, n, proper, hf, whole⟩ := exists_last_of_isFile hb h
  refine ⟨n, proper, stripBase?_eq_joined hf (by rw [whole, joined_singleton]) ?_
    (fun m hm => List.mem_singleton.1 hm ▸ proper.toPlain) (List.cons_ne_nil _ _)⟩
  have names : plainNames path = (namesIn front).filter (· ≠ ".") ++ [n] := by
    have last : namesIn n.toList = [n] := by
      rw [namesIn_of_not_mem proper.slash fun none => proper.nonempty (String.toList_inj.1 none), String.ofList_toList]
    rw [plainNames, pathNames_eq, whole, namesIn_slash, namesIn_front hf, last, List.filter_append]
    exact congrArg _ (List.filter_eq_self.2 fun m hm => decide_eq_true (List.mem_singleton.1 hm ▸ proper.here))
  have plain : ∀ m ∈ (namesIn front).filter (· ≠ "."), Plain m := fun m hm =>
    plain_of_mem_plainNames (names ▸ List.mem_append_left _ hm)
  rw [parent?_eq hb, names, if_neg (by simp), List.dropLast_concat, Option.getD_some, components_eq (isAbsolute_fromTop _),
    pathNames_fromTop plain, map_fst_body, filterMap_component?_filter]

/-! ## Listed files -/

namespace TagArguments

variable {args : TagArguments} {c : ProjectConfig} {excludes : List Glob} {dir : String}

theorem isAbsolute_target (hb : isAbsolute dir) : isAbsolute (args.target c dir) := by
  unfold target
  split
  · exact isAbsolute_join hb
  · exact isAbsolute_join hb

theorem isAbsolute_outPath (hb : isAbsolute dir) : isAbsolute (args.outPath c dir) := by
  unfold outPath
  split
  · exact isAbsolute_join hb
  · exact isAbsolute_join hb

/-- A target that is a file is the one file that is listed. -/
theorem listed_of_isFile (h : t.isFile (args.target c dir) = true) :
    args.listed c excludes dir t = [args.target c dir].filter (isEligible (args.options c) excludes dir) := by
  rw [listed, sourceFiles, if_pos h]

theorem listed_of_not_isFile (h : t.isFile (args.target c dir) = false) :
    args.listed c excludes dir t =
      ((t.filesBelow (args.options c).vendorDirs.contains (args.target c dir)).filter
        (isEligible (args.options c) excludes dir)).mergeSort fun a b => precedes (names a) (names b) := by
  rw [listed, sourceFiles, h]
  rfl

/-- Files that a walk finds in order are listed as they are. -/
theorem listed_of_sorted {files : List String} (h : t.isFile (args.target c dir) = false)
    (walked : (t.filesBelow (args.options c).vendorDirs.contains (args.target c dir)).filter
      (isEligible (args.options c) excludes dir) = files)
    (sorted : files.Pairwise fun a b => precedes (names a) (names b) = true) : args.listed c excludes dir t = files := by
  rw [listed_of_not_isFile h, walked]
  exact List.mergeSort_of_pairwise sorted

/-- Files below a target are listed with the way to them. -/
theorem exists_way_of_mem_listed (ht : t.Tidy) (h : t.isFile (args.target c dir) = false)
    (hf : file ∈ args.listed c excludes dir t) : ∃ p ns, t.locatePath (args.target c dir) = .ok (.found p) ∧
      t.look? p = some .dir ∧ file = joins (args.target c dir) ns ∧ t.Way (args.options c).vendorDirs.contains p ns ∧
      t.isFile file = true := by
  rw [listed_of_not_isFile h, List.mem_mergeSort] at hf
  exact exists_way_of_mem_filesBelow ht (List.mem_filter.1 hf).1

theorem base_runOf (h : t.isDir (args.target c dir) = true) : (args.runOf c dir t).base = args.target c dir := by
  rw [runOf, base, if_pos h]

/-- What is below a target has the names on the way. -/
theorem named_of_way (hb : isAbsolute dir) {p : Place} {ns : List String}
    (found : t.locatePath (args.target c dir) = .ok (.found p)) (there : t.look? p = some .dir)
    (hn : ∀ n ∈ ns, Proper n) (nonempty : ns ≠ []) :
    (args.runOf c dir t).Named (joins (args.target c dir) ns) ∧
      (args.runOf c dir t).namesOf (joins (args.target c dir) ns) = ns := by
  have plain : ∀ m ∈ ns, Plain m := fun m hm => (hn m hm).toPlain
  refine TagRun.named_of_stripBase? ?_ hn nonempty
  rw [base_runOf (isDir_eq.2 ⟨p, found, there⟩), joins_eq plain nonempty]
  exact stripBase?_join (isAbsolute_target hb) plain nonempty

/-- A target that is a file has a name relative to the directory around it. -/
theorem named_of_isFile (hb : isAbsolute dir) (h : t.isFile (args.target c dir) = true) :
    (args.runOf c dir t).Named (args.target c dir) := by
  obtain ⟨n, proper, strip⟩ : ∃ n, Proper n ∧
      stripBase? (args.target c dir) ((parent? (args.target c dir)).getD dir) = some (joined [n]) :=
    stripBase?_of_isFile (isAbsolute_target hb) h
  have base : (args.runOf c dir t).base = (parent? (args.target c dir)).getD dir := by
    rw [runOf, base, isDir_of_isFile h]
    rfl
  exact (TagRun.named_of_stripBase? (by rw [base]; exact strip) (fun m hm => List.mem_singleton.1 hm ▸ proper)
    (List.cons_ne_nil _ _)).1

/-- A listed file is there. -/
theorem isFile_of_mem_listed (ht : t.Tidy) (hf : file ∈ args.listed c excludes dir t) : t.isFile file = true := by
  cases h : t.isFile (args.target c dir) with
  | true =>
    rw [listed_of_isFile h] at hf
    rwa [List.mem_singleton.1 (List.mem_filter.1 hf).1]
  | false =>
    obtain ⟨-, -, -, -, -, -, read⟩ := exists_way_of_mem_listed ht h hf
    exact read

/-- Files below a target are listed with their names, which are the way to them. -/
theorem way_of_mem_listed (ht : t.Tidy) (hb : isAbsolute dir) (h : t.isFile (args.target c dir) = false)
    (hf : file ∈ args.listed c excludes dir t) : ∃ p, t.locatePath (args.target c dir) = .ok (.found p) ∧
      t.Way (args.options c).vendorDirs.contains p ((args.runOf c dir t).namesOf file) ∧
      (args.runOf c dir t).Named file ∧ file = joins (args.target c dir) ((args.runOf c dir t).namesOf file) := by
  obtain ⟨p, ns, found, there, rfl, way, -⟩ := exists_way_of_mem_listed ht h hf
  obtain ⟨named, names⟩ := named_of_way hb found there way.proper way.ne_nil
  exact ⟨p, found, names.symm ▸ way, named, congrArg _ names.symm⟩

/-- The files that a run lists are in the order of their names. -/
theorem pairwise_listed (h : t.isFile (args.target c dir) = false) :
    (args.listed c excludes dir t).Pairwise fun f g => precedes (names f) (names g) = true := by
  rw [listed_of_not_isFile h]
  exact pairwise_sorted _

/-- The files that a run lists have names of their own. -/
theorem listing_listed (ht : t.Tidy) (hb : isAbsolute dir) :
    (args.runOf c dir t).Listing (args.listed c excludes dir t) := by
  cases h : t.isFile (args.target c dir) with
  | true =>
    rw [listed_of_isFile h]
    exact TagRun.listing_of_eq (named_of_isFile hb h) (fun f hf => List.mem_singleton.1 (List.mem_filter.1 hf).1)
      ((List.nodup_singleton _).filter _)
  | false =>
    have way (f : String) (hf : f ∈ args.listed c excludes dir t) := way_of_mem_listed ht hb h hf
    constructor
    · intro f hf
      obtain ⟨-, -, -, named, -⟩ := way f hf
      exact named
    · intro f hf g hg ms same
      obtain ⟨p, found, first, -⟩ := way f hf
      obtain ⟨q, found', second, -⟩ := way g hg
      cases found.symm.trans found'
      exact first.eq_of_append (same ▸ second)
    · intro f hf g hg same
      obtain ⟨-, -, -, -, whole⟩ := way f hf
      obtain ⟨-, -, -, -, whole'⟩ := way g hg
      rw [whole, whole', same]
    · rw [listed_of_not_isFile h]
      exact (List.mergeSort_perm _ _).nodup_iff.2 ((nodup_filesBelow ht _).filter _)
    · refine (pairwise_listed h).imp_of_mem fun {f g} hf hg order ns n second first => ?_
      obtain ⟨_, -, way₁, -, whole⟩ := way f hf
      obtain ⟨_, -, way₂, -, whole'⟩ := way g hg
      rw [whole, whole', names_joins (isAbsolute_target hb) way₁.proper, names_joins (isAbsolute_target hb) way₂.proper,
        first, second, ← List.cons_append, ← List.cons_append, precedes_append] at order
      exact not_precedes_mapPath ns n order

end TagArguments

end InPlace

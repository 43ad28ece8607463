import InPlace.Project.Tag
import Mathlib.Algebra.GroupWithZero.Nat

/-!
# A run over files

A run goes through the files one after the other. Each attempt leaves a tree and has an outcome, a report or a fault,
and what is said and summed up in the end follows from the outcomes.

Main statements: `foldl_step` and `run_eq`.
-/

namespace InPlace

open Files

variable {t : Tree} {run : TagRun} {parse : String → Option Tsx.Node} {out : String}

namespace TagRun

/-- Where what becomes of a file is written. -/
def outputOf (run : TagRun) (out file : String) : String :=
  Text.Path.join out (run.nameOf file)

/-- Tags one file and writes what becomes of it. -/
def attempt (run : TagRun) (parse : String → Option Tsx.Node) (out : String) (t : Tree) (file : String) :
    Tree × Except OsError Tagging.Report :=
  match tagSourceFile parse t run.options file run.root with
  | .error e => (t, .error e)
  | .ok r =>
    match writeReport t r (run.outputOf out file) with
    | (c, none) => (c, .ok r)
    | (c, some e) => (c, .error e)

/-- Tags files one after the other. -/
def attempts (run : TagRun) (parse : String → Option Tsx.Node) (out : String) (t : Tree) :
    List String → Tree × List (Except OsError Tagging.Report)
  | [] => (t, [])
  | file :: files =>
    let (c, outcome) := run.attempt parse out t file
    let (d, outcomes) := run.attempts parse out c files
    (d, outcome :: outcomes)

/-- What is said about a file. -/
def lineOf (run : TagRun) (out file : String) : Except OsError Tagging.Report → Line
  | .ok r => .out (reportLine (run.nameOf file) r (run.outputOf out file))
  | .error e => .err ("  ✗ " ++ run.nameOf file ++ " - " ++ e.message)

end TagRun

namespace Summary

/-- Counts a file. -/
def count (s : Summary) : Except OsError Tagging.Report → Summary
  | .ok r => s.record r
  | .error _ => { s with errors := s.errors + 1 }

/-- The reports among outcomes. -/
def reports (outcomes : List (Except OsError Tagging.Report)) : List Tagging.Report :=
  outcomes.filterMap Except.toOption

/-- A summary counts each outcome once, as a file or an error. -/
theorem foldl_count (s : Summary) (outcomes : List (Except OsError Tagging.Report)) :
    (outcomes.foldl count s).files = s.files + (reports outcomes).length ∧
    (outcomes.foldl count s).errors + (reports outcomes).length = s.errors + outcomes.length ∧
    (outcomes.foldl count s).elements = s.elements + ((reports outcomes).map Tagging.Report.inserted).sum := by
  induction outcomes generalizing s with
  | nil => exact ⟨rfl, rfl, rfl⟩
  | cons outcome outcomes ih =>
    obtain ⟨files, errors, elements⟩ := ih (s.count outcome)
    cases outcome with
    | ok r =>
      have some : reports (.ok r :: outcomes) = r :: reports outcomes := rfl
      simp only [List.foldl_cons, some, List.length_cons, List.map_cons, List.sum_cons] at files errors elements ⊢
      simp only [count, record] at files errors elements ⊢
      omega
    | error e =>
      have none : reports (.error e :: outcomes) = reports outcomes := rfl
      simp only [List.foldl_cons, none, List.length_cons] at files errors elements ⊢
      simp only [count] at files errors elements ⊢
      omega

end Summary

namespace TagRun

/-- A step of a run attempts one file, prints a line about it and counts it. -/
theorem step_eq (h : run.outDir = some out) (j : Job) (s : Summary) (file : String) : run.step parse (j, s) file =
    ({ files := (run.attempt parse out j.files file).1
       lines := j.lines ++ [run.lineOf out file (run.attempt parse out j.files file).2] },
      s.count (run.attempt parse out j.files file).2) := by
  unfold step attempt
  dsimp only
  cases tagSourceFile parse j.files run.options file run.root with
  | error e => rfl
  | ok r =>
    rw [h]
    dsimp only
    unfold outputOf
    cases writeReport j.files r (Text.Path.join out (run.nameOf file)) with
    | mk c fault => cases fault <;> rfl

theorem length_attempts (run : TagRun) (parse : String → Option Tsx.Node) (out : String) (t : Tree) (files : List String) :
    (run.attempts parse out t files).2.length = files.length := by
  induction files generalizing t with
  | nil => rfl
  | cons file files ih => exact congrArg (· + 1) (ih _)

/-- What a run leaves, says and sums up. -/
theorem foldl_step (parse : String → Option Tsx.Node) (h : run.outDir = some out) (j : Job) (s : Summary)
    (files : List String) :
    files.foldl (run.step parse) (j, s) =
      ({ files := (run.attempts parse out j.files files).1
         lines := j.lines ++ List.zipWith (run.lineOf out) files (run.attempts parse out j.files files).2 },
        (run.attempts parse out j.files files).2.foldl Summary.count s) := by
  induction files generalizing j s with
  | nil =>
    show (j, s) = (⟨j.files, j.lines ++ []⟩, s)
    rw [List.append_nil]
  | cons file files ih =>
    rw [List.foldl_cons, step_eq h, ih]
    simp only [attempts, List.zipWith_cons_cons, List.foldl_cons, List.append_assoc, List.singleton_append]

/-- Where nothing is written the files stay. -/
theorem files_foldl_step (parse : String → Option Tsx.Node) (h : run.outDir = none) (j : Job) (s : Summary)
    (files : List String) :
    (files.foldl (run.step parse) (j, s)).1.files = j.files := by
  induction files generalizing j s with
  | nil => rfl
  | cons file files ih =>
    rw [List.foldl_cons]
    have same : (run.step parse (j, s) file).1.files = j.files := by
      unfold step
      dsimp only
      cases tagSourceFile parse j.files run.options file run.root with
      | error e => rfl
      | ok r =>
        rw [h]
        rfl
    rw [show run.step parse (j, s) file = ((run.step parse (j, s) file).1, (run.step parse (j, s) file).2) from rfl, ih,
      same]

end TagRun

/-! ## The whole run -/

theorem Files.Tree.pathExists_of_isFile {path : String} (h : t.isFile path = true) : t.pathExists path = true := by
  unfold Tree.isFile at h
  unfold Tree.pathExists
  cases hr : t.read path with
  | error e =>
    rw [hr] at h
    cases h
  | ok u => rfl

theorem Files.Tree.pathExists_of_filesBelow {path file : String} {skipped : String → Bool}
    (h : file ∈ t.filesBelow skipped path) : t.pathExists path = true := by
  unfold Tree.filesBelow at h
  split at h
  · rename_i place found
    unfold Tree.filesWithin at h
    split at h
    · cases h
    · split at h
      · rename_i es there
        rw [Tree.pathExists, Tree.read_eq_of_locate found there]
        rfl
      · cases h
  · cases h

/-- Files are found only where something is. -/
theorem pathExists_of_mem_sourceFiles {o : Tagging.Options} {excludes : List Text.Glob} {target root file : String}
    (h : file ∈ sourceFiles t o excludes target root) : t.pathExists target = true := by
  unfold sourceFiles at h
  split at h
  · rename_i isFile
    exact t.pathExists_of_isFile isFile
  · exact t.pathExists_of_filesBelow (List.mem_filter.1 (List.mem_mergeSort.1 h)).1

namespace TagArguments

/-- How a run goes over the files of a project. -/
def runOf (args : TagArguments) (c : ProjectConfig) (dir : String) (t : Tree) : TagRun where
  options := args.options c
  root := dir
  base := base (args.target c dir) dir t
  outDir := if args.stdout then none else some (args.outPath c dir)

variable {args : TagArguments} {c : ProjectConfig} {dir : String} {excludes : List Text.Glob}

/-- The files that a run lists. -/
def listed (args : TagArguments) (c : ProjectConfig) (excludes : List Text.Glob) (dir : String) (t : Tree) : List String :=
  sourceFiles t (args.options c) excludes (args.target c dir) dir

/-- A run that lists files tags them. -/
theorem run_eq (hl : ProjectConfig.load t dir = .ok c) (hp : c.patterns = .ok excludes) (hm : args.mode = .development)
    (hf : args.listed c excludes dir t ≠ []) : args.run parse dir t =
      (args.tagFiles parse c dir ({ files := t : Job }.say "🏷️  Tagging source files...")
        (args.listed c excludes dir t), none) := by
  obtain ⟨file, rest, hr⟩ := List.exists_cons_of_ne_nil hf
  have found : t.pathExists (args.target c dir) = true :=
    pathExists_of_mem_sourceFiles (hr ▸ List.mem_cons_self : file ∈ args.listed c excludes dir t)
  unfold listed at hr ⊢
  unfold run runWith
  rw [hl]
  simp only [found, hm, hp, hr, Bool.not_true, Bool.false_eq_true, if_false, ne_eq, not_true]

/-- A run that lists no files, or is not to write, leaves the tree. -/
theorem files_run_of_nil (hl : ProjectConfig.load t dir = .ok c) (hp : c.patterns = .ok excludes)
    (hf : args.listed c excludes dir t = []) : (args.run parse dir t).1.files = t := by
  unfold listed at hf
  unfold run runWith
  rw [hl]
  simp only [hp, hf]
  split
  · rfl
  · split <;> rfl

/-- A run attempts its files one after the other, and prints what has become of them. -/
theorem tagFiles_eq (hs : args.stdout = false) (j : Job) (files : List String) :
    let r := (args.runOf c dir j.files).attempts parse (args.outPath c dir) j.files files
    args.tagFiles parse c dir j files =
      { files := r.1
        lines := j.lines ++ .out ("Found " ++ toString files.length ++ " files") ::
          (List.zipWith ((args.runOf c dir j.files).lineOf (args.outPath c dir)) files r.2 ++
            [.out "", .out (r.2.foldl Summary.count {}).text]) } := by
  have out : (args.runOf c dir j.files).outDir = some (args.outPath c dir) := by
    rw [runOf, hs]
    rfl
  have fold := TagRun.foldl_step parse out (j.say ("Found " ++ toString files.length ++ " files")) {} files
  dsimp only
  unfold tagFiles
  dsimp only
  unfold runOf at fold ⊢
  rw [fold]
  simp only [Job.say, List.append_assoc, List.cons_append, List.nil_append]

/-- A run that writes goes over the files that it lists. -/
theorem files_run (hl : ProjectConfig.load t dir = .ok c) (hp : c.patterns = .ok excludes) (hm : args.mode = .development)
    (hs : args.stdout = false) : (args.run parse dir t).1.files =
      ((args.runOf c dir t).attempts parse (args.outPath c dir) t (args.listed c excludes dir t)).1 := by
  by_cases hf : args.listed c excludes dir t = []
  · rw [files_run_of_nil hl hp hf, hf]
    rfl
  · rw [run_eq hl hp hm hf, tagFiles_eq hs]
    rfl

/-- What a run says that writes: a line for each file, and the sum in the end. -/
theorem lines_run (hl : ProjectConfig.load t dir = .ok c) (hp : c.patterns = .ok excludes) (hm : args.mode = .development)
    (hs : args.stdout = false) (hf : args.listed c excludes dir t ≠ []) :
    let outcomes := ((args.runOf c dir t).attempts parse (args.outPath c dir) t (args.listed c excludes dir t)).2
    (args.run parse dir t).1.lines =
      .out "🏷️  Tagging source files..." :: .out ("Found " ++ toString (args.listed c excludes dir t).length ++ " files") ::
        (List.zipWith ((args.runOf c dir t).lineOf (args.outPath c dir)) (args.listed c excludes dir t) outcomes
        ++ [.out "", .out (outcomes.foldl Summary.count {}).text]) := by
  rw [run_eq hl hp hm hf, tagFiles_eq hs]
  rfl

/-- A run that does not write leaves the files. -/
theorem files_run_cases (args : TagArguments) (parse : String → Option Tsx.Node) (dir : String) (t : Tree) :
    (args.run parse dir t).1.files = t ∨
    ∃ c excludes, ProjectConfig.load t dir = .ok c ∧ c.patterns = .ok excludes ∧ args.mode = .development ∧
      args.stdout = false := by
  cases hl : ProjectConfig.load t dir with
  | error fault =>
    refine .inl ?_
    unfold run
    rw [hl]
  | ok c =>
    cases hp : c.patterns with
    | error fault =>
      refine .inl ?_
      unfold run runWith
      rw [hl]
      simp only [hp]
      split
      · rfl
      · split <;> rfl
    | ok excludes =>
      by_cases hm : args.mode = .development
      · cases hs : args.stdout with
        | false => exact .inr ⟨c, excludes, rfl, hp, hm, rfl⟩
        | true =>
          refine .inl ?_
          by_cases hf : args.listed c excludes dir t = []
          · exact files_run_of_nil hl hp hf
          · rw [run_eq hl hp hm hf]
            have out : (args.runOf c dir t).outDir = none := by
              rw [runOf, hs]
              rfl
            have same := TagRun.files_foldl_step parse out
              (({ files := t : Job }.say "🏷️  Tagging source files...").say
                ("Found " ++ toString (args.listed c excludes dir t).length ++ " files")) {} (args.listed c excludes dir t)
            exact same
      · refine .inl ?_
        unfold run runWith
        rw [hl]
        simp only [hm, ne_eq, not_false_eq_true, if_true]
        split <;> rfl

end TagArguments

end InPlace

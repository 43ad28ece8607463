import InPlace.Proofs.Project.Repeats

/-!
# Runs that are repeated

A run that is repeated tags the files that were tagged and changes nothing, if what it writes is apart from what it reads:
the configuration, a target that is a file, the links that the walk comes to, and the ways on which the walk would come to
an output and which are eligible. An output directory in the middle of the target is not apart, unless no file is taken
from it.

Main statements: `run_run` and `apart_of_linkFree`.
-/

namespace InPlace

open Files Files.Tree Text Text.Path

namespace TagArguments

variable {args : TagArguments} {c : ProjectConfig} {excludes : List Glob} {dir file : String} {t u : Tree} {p : Place}
  {parse : String → Option Tsx.Node}

/-- A run makes a directory at a place. -/
def Makes (args : TagArguments) (c : ProjectConfig) (excludes : List Glob) (dir : String) (t : Tree) : Place → Prop :=
  (args.runOf c dir t).Makes (args.outPath c dir) (args.listed c excludes dir t) t

/-- A run writes a file at a place. -/
def Writes (args : TagArguments) (c : ProjectConfig) (excludes : List Glob) (dir : String) (t : Tree) : Place → Prop :=
  (args.runOf c dir t).Writes (args.outPath c dir) (args.listed c excludes dir t) t

/-- What a run makes and writes is apart from what it reads. -/
structure Apart (args : TagArguments) (c : ProjectConfig) (excludes : List Glob) (dir : String) (t : Tree) : Prop where
  /-- No link stands below the output directory. -/
  free : ∀ o, TagRun.OutputAt (args.outPath c dir) t o → t.LinkFree o
  /-- The path of the configuration does not lead over it. -/
  config : ∀ q ∈ t.pathTrail (join dir ProjectConfig.fileName),
    ¬ args.Makes c excludes dir t q ∧ ¬ args.Writes c excludes dir t q
  /-- The target is not written. -/
  target : ∀ p, t.locatePath (args.target c dir) = .ok (.found p) → ¬ args.Writes c excludes dir t p
  /-- The links that the walk comes to do not lead over it, and no way on which the walk would come to what is written is
  eligible. -/
  walk : ∀ p, t.locatePath (args.target c dir) = .ok (.found p) → t.look? p = some .dir →
    t.Beside (args.options c).vendorDirs.contains p
      (fun ns => isEligible (args.options c) excludes dir (joins (args.target c dir) ns) = true)
      (args.Makes c excludes dir t) (args.Writes c excludes dir t)

/-- No file is both read and written. -/
theorem Apart.not_writes (apart : args.Apart c excludes dir t) (ht : t.Tidy)
    (hf : file ∈ args.listed c excludes dir t) (found : t.locatePath file = .ok (.found p)) :
    ¬ args.Writes c excludes dir t p := by
  cases h : t.isFile (args.target c dir) with
  | true =>
    rw [listed_of_isFile h] at hf
    rw [List.mem_singleton.1 (List.mem_filter.1 hf).1] at found
    exact apart.target p found
  | false =>
    obtain ⟨q, ns, target, there, rfl, way, -⟩ := exists_way_of_mem_listed ht h hf
    rw [listed_of_not_isFile h, List.mem_mergeSort] at hf
    exact (apart.walk q target there).not_written (arrives_of_found target) way (List.mem_filter.1 hf).2 found

section Changed

variable (apart : args.Apart c excludes dir t)
  (changes : Changes t u (args.Makes c excludes dir t) (args.Writes c excludes dir t))

include apart changes

theorem Apart.load_eq : ProjectConfig.load u dir = ProjectConfig.load t dir := by
  have same : ∀ q ∈ t.pathTrail (join dir ProjectConfig.fileName), u.look? q = t.look? q := fun q hq =>
    changes.look?_eq (apart.config q hq).1 (apart.config q hq).2
  rw [ProjectConfig.load, ProjectConfig.load, pathExists_congr same, readText_congr same]

/-- The files that are listed are those that were listed, relative to the same base. -/
theorem Apart.listed_eq (ht : t.Tidy) (hu : u.Tidy) (hb : isAbsolute dir) (nonempty : args.listed c excludes dir t ≠ []) :
    args.listed c excludes dir u = args.listed c excludes dir t ∧ args.runOf c dir u = args.runOf c dir t := by
  have grows := changes.grows
  cases h : t.isFile (args.target c dir) with
  | true =>
    have h' := grows.isFile h
    refine ⟨by rw [listed_of_isFile h, listed_of_isFile h'], ?_⟩
    rw [runOf, runOf, base, base, isDir_of_isFile h, isDir_of_isFile h']
  | false =>
    obtain ⟨f, hf⟩ := List.exists_mem_of_ne_nil _ nonempty
    obtain ⟨p, -, found, there, -, -, -⟩ := exists_way_of_mem_listed ht h hf
    have dir' := isDir_eq.2 ⟨p, found, there⟩
    have dir'' := grows.isDir dir'
    have h' : u.isFile (args.target c dir) = false := by
      rw [Bool.eq_false_iff]
      exact fun file => Bool.false_ne_true ((isDir_of_isFile file).symm.trans dir'')
    refine ⟨?_, by rw [runOf, runOf, base, base, if_pos dir', if_pos dir'']⟩
    have absolute : isAbsolute (args.target c dir) := isAbsolute_target hb
    rw [listed_of_not_isFile h, listed_of_not_isFile h']
    -- sorted by names the same files come in the same order, however the walk found them
    refine mergeSort_congr ((nodup_filesBelow hu _).filter _) ((nodup_filesBelow ht _).filter _)
      (fun f => ?_) fun f hf g hg same => ?_
    · rw [List.mem_filter, List.mem_filter]
      exact and_congr_left fun eligible =>
        mem_filesBelow_congr ht hu found there (apart.walk p found there) changes eligible
    · obtain ⟨q, ns, -, -, rfl, way, -⟩ := exists_way_of_mem_filesBelow hu (List.mem_filter.1 hf).1
      obtain ⟨q', ms, -, -, rfl, way', -⟩ := exists_way_of_mem_filesBelow hu (List.mem_filter.1 hg).1
      rw [names_joins absolute way.proper, names_joins absolute way'.proper] at same
      rw [List.append_cancel_left (List.cons.inj same).2]

end Changed

/-! ## Without links -/

/-- A directory in the target of which no file is taken: the names lead to it from the target. -/
def Unread (args : TagArguments) (c : ProjectConfig) (excludes : List Glob) (dir : String) (ks : List String) : Prop :=
  ∀ ns, ns ≠ [] → (∀ n ∈ ns, Proper n) →
    isEligible (args.options c) excludes dir (joins (args.target c dir) (ks ++ ns)) = false

/-- The output directory does not contain the target, and is not in it or is a directory of which no file is taken. -/
def Aside (args : TagArguments) (c : ProjectConfig) (excludes : List Glob) (dir : String) (o p : Place) : Prop :=
  ¬ o <+: p ∧ ∀ ks, o = p ++ ks → args.Unread c excludes dir ks

theorem aside_of_outside {o : Place} (outside : ¬ o <+: p) (inside : ¬ p <+: o) : args.Aside c excludes dir o p :=
  ⟨outside, fun ks place => absurd ⟨ks, place.symm⟩ inside⟩

/-- What a run writes is below its output directory. -/
theorem exists_output_of_writes (ht : t.Tidy) (hb : isAbsolute dir) (h : args.Writes c excludes dir t p) :
    ∃ o ns, TagRun.OutputAt (args.outPath c dir) t o ∧ ns ≠ [] ∧ (∀ n ∈ ns, Proper n) ∧ p = o ++ ns := by
  obtain ⟨-, o, f, output, hf, place⟩ := h
  have named := (listing_listed ht hb).named f hf
  rcases place with rfl | ⟨-, rfl⟩
  · exact ⟨o, _, output, named.nonempty, named.proper, rfl⟩
  · obtain ⟨ns, n, hn⟩ := named.exists_eq
    have proper := named.proper
    rw [hn] at proper
    refine ⟨o, _, output, ?_, ?_, rfl⟩
    · rw [named.mapNamesOf_eq hn]
      exact List.append_ne_nil_of_right_ne_nil ns (List.cons_ne_nil _ _)
    · rw [named.mapNamesOf_eq hn]
      intro m hm
      rcases List.mem_append.1 hm with hm | hm
      · exact proper m (List.mem_append_left _ hm)
      · rw [List.mem_singleton.1 hm]
        exact (proper n (List.mem_append_right _ List.mem_cons_self)).mapPath

/-- A place that is there or is not made on the way to the output directory is neither made nor written outside of it. -/
theorem spared_of_outside (ht : t.Tidy) (hb : isAbsolute dir)
    (kept : t.look? p ≠ none ∨ (t.makeAll (above (plainNames (args.outPath c dir)))).1.look? p = none)
    (outside : ∀ o, TagRun.OutputAt (args.outPath c dir) t o → ¬ o <+: p) :
    ¬ args.Makes c excludes dir t p ∧ ¬ args.Writes c excludes dir t p := by
  constructor
  · rintro ⟨nothing, made | ⟨o, f, ks, output, -, -, rfl⟩⟩
    · have before := kept.resolve_left (not_not.2 nothing)
      cases before.symm.trans made
    · exact outside o output (List.prefix_append o ks)
  · intro hw
    obtain ⟨o, ns, output, -, -, rfl⟩ := exists_output_of_writes ht hb hw
    exact outside o output (List.prefix_append o ns)

/-- Where there are no links, what a run writes is apart from what it reads if the output directory is aside from the
target and is not where the configuration is. -/
theorem apart_of_linkFree (ht : t.Tidy) (hb : isAbsolute dir) (free : t.LinkFree [])
    (config : ∀ q ∈ t.pathTrail (join dir ProjectConfig.fileName),
      ¬ args.Makes c excludes dir t q ∧ ¬ args.Writes c excludes dir t q)
    (aside : ∀ o p, TagRun.OutputAt (args.outPath c dir) t o → t.locatePath (args.target c dir) = .ok (.found p) →
      args.Aside c excludes dir o p) : args.Apart c excludes dir t where
  free o _ := free.below o
  config := config
  target p found hw := by
    obtain ⟨o, ns, output, -, -, rfl⟩ := exists_output_of_writes ht hb hw
    exact (aside o _ output found).1 (List.prefix_append o ns)
  walk p found _ := by
    apply beside_of_linkFree (free.below p)
    intro ms _ hw eligible
    obtain ⟨o, ns, output, nonempty, proper, place⟩ := exists_output_of_writes ht hb hw
    obtain ⟨outside, unread⟩ := aside o p output found
    rcases List.append_eq_append_iff.1 place with ⟨ks, inside, rfl⟩ | ⟨ks, above, -⟩
    · rw [unread ks inside ns nonempty proper] at eligible
      cases eligible
    · exact outside ⟨ks, above.symm⟩

/-! ## Once more -/

/-- A run that is repeated tags the files that were tagged and changes nothing. -/
theorem run_run (ht : t.Tidy) (hb : isAbsolute dir) (apart : ∀ c excludes, ProjectConfig.load t dir = .ok c →
      c.patterns = .ok excludes → args.Apart c excludes dir t) :
    let u := (args.run parse dir t).1.files
    (∀ q, (args.run parse dir u).1.files.look? q = u.look? q) ∧
      ∀ c excludes, ProjectConfig.load t dir = .ok c → c.patterns = .ok excludes →
        ProjectConfig.load u dir = .ok c ∧ args.listed c excludes dir u = args.listed c excludes dir t := by
  intro u
  rcases files_run_cases args parse dir t with same | ⟨c, excludes, hl, hp, hm, hs⟩
  · have here : u = t := same
    rw [here]
    exact ⟨fun q => by rw [same], fun c excludes hl _ => ⟨hl, rfl⟩⟩
  · -- a run that finds no files ends before the output directory is made
    by_cases nonempty : args.listed c excludes dir t = []
    · have here : u = t := files_run_of_nil hl hp nonempty
      rw [here]
      exact ⟨fun q => by rw [files_run_of_nil hl hp nonempty], fun c excludes hl _ => ⟨hl, rfl⟩⟩
    · have apart := apart c excludes hl hp
      have first : u = ((args.runOf c dir t).attempts parse (args.outPath c dir) t (args.listed c excludes dir t)).1 :=
        files_run hl hp hm hs
      have absolute : isAbsolute (args.outPath c dir) := isAbsolute_outPath hb
      have listing : (args.runOf c dir t).Listing (args.listed c excludes dir t) := listing_listed ht hb
      have changes : Changes t u (args.Makes c excludes dir t) (args.Writes c excludes dir t) :=
        first ▸ TagRun.changes_attempts absolute apart.free listing.named
      have hu : u.Tidy := first ▸ TagRun.tidy_attempts ht absolute apart.free listing.named
      have load := (apart.load_eq changes).trans hl
      obtain ⟨listed, base⟩ := apart.listed_eq changes ht hu hb nonempty
      constructor
      · intro q
        rw [files_run load hp hm hs, listed, base, first]
        exact TagRun.attempts_attempts absolute apart.free listing.named
          (fun f hf => isFile_of_mem_listed ht hf) (fun f hf p => apart.not_writes ht hf) q
      · intro c' excludes' hl' hp'
        cases hl.symm.trans hl'
        cases hp.symm.trans hp'
        exact ⟨load, listed⟩

/-- A project with one file. -/
def oneFile : Tree :=
  .dir [("p", .dir [("src", .dir [("a.tsx", .file "<b/>".toUTF8)])])]

theorem run_run_oneFile :
    let first := ({} : TagArguments).run Tsx.parse "/p" oneFile
    let second := ({} : TagArguments).run Tsx.parse "/p" first.1.files
    oneFile.Tidy ∧ ({} : TagArguments).Apart {} [] "/p" oneFile ∧
      first.1.files.readText "/p/dist/a.tsx" = .ok "<b data-sg-el=\"src/a.tsx:1:0\" data-sg-name=\"b\"/>" ∧
      ∀ q, second.1.files.look? q = first.1.files.look? q := by
  have ht : oneFile.Tidy := tidy_of_isTidy _ (by decide +kernel)
  have hl : ProjectConfig.load oneFile "/p" = .ok {} := by decide +kernel
  have output (o : Place) (h : TagRun.OutputAt "/p/dist" oneFile o) : o = ["p", "dist"] :=
    h.eq ⟨by decide +kernel, by decide +kernel⟩
  have apart : ({} : TagArguments).Apart {} [] "/p" oneFile := by
    refine apart_of_linkFree ht (by decide) (linkFree_of_hasNoLink (by decide +kernel)) (fun q hq => ?_)
      fun o p place found => ?_
    · have trail : oneFile.pathTrail (join "/p" ProjectConfig.fileName) = [[], ["p"], ["p", "liveedit.config.json"]] := by
        decide +kernel
      rw [trail] at hq
      refine spared_of_outside ht (by decide) ?_ fun o place => ?_
      · revert q
        decide +kernel
      · rw [output o place]
        revert q
        decide
    · have target : oneFile.locatePath (({} : TagArguments).target {} "/p") = .ok (.found ["p", "src"]) := by
        decide +kernel
      cases target.symm.trans found
      rw [output o place]
      exact aside_of_outside (by decide) (by decide)
  refine ⟨ht, apart, by decide +kernel, ?_⟩
  refine (@run_run {} "/p" oneFile Tsx.parse ht (by decide) fun c excludes hl' hp => ?_).1
  cases hl.symm.trans hl'
  cases hp
  exact apart

/-- A project with its one file at the top. -/
def flatProject : Tree :=
  .dir [("p", .dir [("a.ts", .file "x".toUTF8)])]

/-- The whole project is tagged, and the output directory is in it: what was written by one run the next one tags, and it
writes a file that was not there. -/
theorem output_tagged_again :
    let args : TagArguments := { path := some "." }
    let first := args.run Tsx.parse "/p" flatProject
    let second := args.run Tsx.parse "/p" first.1.files
    flatProject.locatePath (args.target {} "/p") = .ok (.found ["p"]) ∧
      first.1.files.locatePath (args.outPath {} "/p") = .ok (.found ["p", "dist"]) ∧
      first.1.files.readText "/p/dist/dist/a.ts" = .error .notFound ∧
      second.1.files.readText "/p/dist/dist/a.ts" = .ok "x" := by
  intro args first second
  refine ⟨by decide +kernel, by decide +kernel, by decide +kernel, ?_⟩
  have hl : ProjectConfig.load first.1.files "/p" = .ok {} := by decide +kernel
  have files : args.listed {} [] "/p" first.1.files = ["/p/./a.ts", "/p/./dist/a.ts"] :=
    listed_of_sorted (by decide +kernel) (by decide +kernel) (by decide +kernel)
  show (args.run Tsx.parse "/p" first.1.files).1.files.readText _ = _
  rw [@files_run first.1.files Tsx.parse args {} "/p" [] hl rfl rfl rfl, files]
  decide +kernel

/-- A project with a link to the output directory among its sources. -/
def linkedSource : Tree :=
  .dir [("p", .dir [("src", .dir [("a.ts", .file "x".toUTF8), ("out", .link "../dist")])])]

/-- The output directory is beside the target, but a link in the target leads to it, once it has been made. -/
theorem output_tagged_through_link :
    let first := ({} : TagArguments).run Tsx.parse "/p" linkedSource
    let second := ({} : TagArguments).run Tsx.parse "/p" first.1.files
    first.1.files.locatePath "/p/src/out" = .ok (.found ["p", "dist"]) ∧
      first.1.files.readText "/p/dist/out/a.ts" = .error .notFound ∧
      second.1.files.readText "/p/dist/out/a.ts" = .ok "x" := by
  intro first second
  refine ⟨by decide +kernel, by decide +kernel, ?_⟩
  have hl : ProjectConfig.load first.1.files "/p" = .ok {} := by decide +kernel
  have files : ({} : TagArguments).listed {} [] "/p" first.1.files = ["/p/src/a.ts", "/p/src/out/a.ts"] :=
    listed_of_sorted (by decide +kernel) (by decide +kernel) (by decide +kernel)
  show (({} : TagArguments).run Tsx.parse "/p" first.1.files).1.files.readText _ = _
  rw [@files_run first.1.files Tsx.parse {} {} "/p" [] hl rfl rfl rfl, files]
  decide +kernel

end TagArguments

end InPlace

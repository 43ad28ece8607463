import InPlace.Proofs.Project.Pruning
import InPlace.Proofs.Project.Reruns

/-!
# Output directories in the target

A target may contain the output directory. What a run has written there is not tagged by the next run if the output
directory is a vendor directory or in one, or if it has an excluded pattern of its own, its path with `/**` behind it.

Main statements: `apart_of_vendored` and `apart_of_excluded`.
-/

namespace InPlace

open Files Files.Tree Text Text.Path

namespace TagArguments

variable {args : TagArguments} {c : ProjectConfig} {excludes : List Glob} {dir rel : String} {t : Tree} {o p : Place}
  {ks : List String}

/-- The names of the output directory are names that an operating system keeps. -/
theorem proper_of_outputAt (ht : t.Tidy) {out : String} (output : TagRun.OutputAt out t (p ++ ks)) :
    ∀ k ∈ ks, Proper k := by
  obtain ⟨t₁, made, leads⟩ := output
  apply proper_of_look? (ht.of_outcome made)
  rw [leads.dir]
  exact Option.some_ne_none _

/-! ## Vendor directories -/

/-- Of a vendor directory no file is taken. -/
theorem unread_of_vendored (whole : args.target c dir = join dir rel) (relative : isAbsolute rel = false)
    (vendors : ∀ v ∈ c.vendorDirs, '\\' ∉ v.toList) (proper : ∀ k ∈ ks, Proper k) {v : String} (hv : v ∈ ks)
    (vendor : v ∈ c.vendorDirs) : args.Unread c excludes dir ks := by
  intro ns nonempty hn
  obtain ⟨above, below, rfl⟩ := List.append_of_mem hv
  rw [whole, List.append_assoc, List.cons_append]
  have drops := @drops_isEligible (args.options c) excludes dir rel relative vendors
  apply drops above v (below ++ ns) _ (List.contains_iff_mem.2 vendor)
    (List.append_ne_nil_of_right_ne_nil below nonempty)
  intro m hm
  rw [← List.cons_append, ← List.append_assoc] at hm
  exact (List.mem_append.1 hm).elim (proper m) (hn m)

/-- An output directory in the target is apart if a vendor directory is it or contains it, in the target. -/
theorem apart_of_vendored (ht : t.Tidy) (hb : isAbsolute dir) (free : t.LinkFree [])
    (whole : args.target c dir = join dir rel) (relative : isAbsolute rel = false)
    (vendors : ∀ v ∈ c.vendorDirs, '\\' ∉ v.toList)
    (config : ∀ q ∈ t.pathTrail (join dir ProjectConfig.fileName),
      ¬ args.Makes c excludes dir t q ∧ ¬ args.Writes c excludes dir t q)
    (inside : ∀ o p, TagRun.OutputAt (args.outPath c dir) t o → t.locatePath (args.target c dir) = .ok (.found p) →
      ¬ o <+: p ∧ ∀ ks, o = p ++ ks → ∃ v ∈ ks, v ∈ c.vendorDirs) : args.Apart c excludes dir t := by
  apply apart_of_linkFree ht hb free config
  intro o p output found
  obtain ⟨outside, vendored⟩ := inside o p output found
  refine ⟨outside, fun ks place => ?_⟩
  obtain ⟨v, hv, vendor⟩ := vendored ks place
  exact unread_of_vendored whole relative vendors (proper_of_outputAt ht (place ▸ output)) hv vendor

theorem tidy_flatProject : flatProject.Tidy :=
  tidy_of_isTidy _ (by decide +kernel)

/-- The configuration of the project is neither made nor written, if the output directory is elsewhere. -/
theorem spared_flatProject
    (unmade : (flatProject.makeAll (above (plainNames (args.outPath c "/p")))).1.look? ["p", "liveedit.config.json"] = none)
    (outside : ∀ o, TagRun.OutputAt (args.outPath c "/p") flatProject o →
      ∀ q ∈ [[], ["p"], ["p", "liveedit.config.json"]], ¬ o <+: q) :
    ∀ q ∈ flatProject.pathTrail (join "/p" ProjectConfig.fileName),
      ¬ args.Makes c excludes "/p" flatProject q ∧ ¬ args.Writes c excludes "/p" flatProject q := by
  intro q hq
  have trail : flatProject.pathTrail (join "/p" ProjectConfig.fileName) =
      [[], ["p"], ["p", "liveedit.config.json"]] := by decide +kernel
  rw [trail] at hq
  refine spared_of_outside tidy_flatProject (by decide) ?_ fun o output => outside o output q hq
  have there : ∀ r ∈ [[], ["p"]], flatProject.look? r ≠ none := by decide +kernel
  rcases List.mem_append.1 (show q ∈ [[], ["p"]] ++ [["p", "liveedit.config.json"]] from hq) with first | last
  · exact .inl (there q first)
  · exact .inr (List.mem_singleton.1 last ▸ unmade)

/-- The whole project is tagged into a directory among its packages. -/
theorem apart_flatProject_packages :
    let args : TagArguments := { path := some ".", outDir := some "node_modules/tagged" }
    args.Apart {} [] "/p" flatProject := by
  intro args
  have output (o : Place) (h : TagRun.OutputAt (args.outPath {} "/p") flatProject o) :
      o = ["p", "node_modules", "tagged"] := h.eq ⟨by decide +kernel, by decide +kernel⟩
  apply @apart_of_vendored args {} [] "/p" "." flatProject tidy_flatProject (by decide)
    (linkFree_of_hasNoLink (by decide +kernel)) rfl (by decide) (by decide)
  · apply spared_flatProject (by decide +kernel)
    intro o place
    rw [output o place]
    decide
  · intro o p place found
    have target : flatProject.locatePath (args.target {} "/p") = .ok (.found ["p"]) := by decide +kernel
    cases target.symm.trans found
    cases output o place
    refine ⟨by decide, fun ks same => ?_⟩
    cases same
    exact ⟨"node_modules", by decide, by decide⟩

/-! ## Excluded patterns -/

/-- What comes of an item is among the results, if nothing fails. -/
theorem mem_of_mapM_eq_ok {α β ε : Type} {f : α → Except ε β} {items : List α} {results : List β} {item : α} {result : β}
    (h : items.mapM f = .ok results) (hm : item ∈ items) (hf : f item = .ok result) : result ∈ results := by
  induction items generalizing results with
  | nil => cases hm
  | cons first items ih =>
    rw [List.mapM_cons] at h
    cases one : f first with
    | error e =>
      rw [one] at h
      cases h
    | ok value =>
      cases rest : items.mapM f with
      | error e =>
        rw [one, rest] at h
        cases h
      | ok values =>
        rw [one, rest] at h
        cases h
        rcases List.mem_cons.1 hm with rfl | hm
        · cases one.symm.trans hf
          exact List.mem_cons_self
        · exact List.mem_cons_of_mem _ (ih rest hm)

/-- A directory that has an excluded pattern of its own. -/
structure Excluded (args : TagArguments) (c : ProjectConfig) (dir : String) (ks : List String) : Prop where
  named : relativeTo dir (joins (args.target c dir) ks) ≠ ""
  /-- The path of the directory holds no wildcards. -/
  plain : ∀ ch ∈ (relativeTo dir (joins (args.target c dir) ks)).toList, Glob.isPlain ch = true
  pattern : relativeTo dir (joins (args.target c dir) ks) ++ "/**" ∈ c.exclude

/-- Of a directory that has an excluded pattern of its own no file is taken. -/
theorem unread_of_excluded (hb : isAbsolute dir) (whole : args.target c dir = join dir rel)
    (relative : isAbsolute rel = false) (patterns : c.patterns = .ok excludes) (proper : ∀ k ∈ ks, Proper k)
    (nonempty : ks ≠ []) (excluded : args.Excluded c dir ks) : args.Unread c excludes dir ks := by
  intro ns below hn
  have parsed := Glob.parse_below excluded.plain
  have mem := mem_of_mapM_eq_ok patterns excluded.pattern (by rw [ProjectConfig.readPattern, parsed])
  have named := excluded.named
  rw [whole] at named
  obtain ⟨rest, path⟩ := exists_relativeTo_append hb relative (fun k hk => (proper k hk).toPlain)
    (fun n hm => (hn n hm).toPlain) below named nonempty
  have accepted := Glob.accepts_below excluded.plain parsed rest
  rw [← whole] at path
  rw [← path] at accepted
  rw [← Bool.not_eq_true, isEligible_iff]
  rintro ⟨-, none⟩
  rw [none _ mem] at accepted
  cases accepted

/-- An output directory in the target is apart if it has an excluded pattern of its own. -/
theorem apart_of_excluded (ht : t.Tidy) (hb : isAbsolute dir) (free : t.LinkFree [])
    (whole : args.target c dir = join dir rel) (relative : isAbsolute rel = false)
    (patterns : c.patterns = .ok excludes)
    (config : ∀ q ∈ t.pathTrail (join dir ProjectConfig.fileName),
      ¬ args.Makes c excludes dir t q ∧ ¬ args.Writes c excludes dir t q)
    (inside : ∀ o p, TagRun.OutputAt (args.outPath c dir) t o → t.locatePath (args.target c dir) = .ok (.found p) →
      ¬ o <+: p ∧ ∀ ks, o = p ++ ks → args.Excluded c dir ks) : args.Apart c excludes dir t := by
  apply apart_of_linkFree ht hb free config
  intro o p output found
  obtain ⟨outside, excluded⟩ := inside o p output found
  refine ⟨outside, fun ks place => ?_⟩
  have nonempty : ks ≠ [] := by
    rintro rfl
    rw [List.append_nil] at place
    exact outside (place ▸ List.prefix_refl p)
  exact unread_of_excluded hb whole relative patterns (proper_of_outputAt ht (place ▸ output)) nonempty
    (excluded ks place)

/-- The whole project is tagged but what an earlier run has written. -/
theorem apart_flatProject_excluded :
    let args : TagArguments := { path := some "." }
    let c : ProjectConfig := { exclude := ["dist/**"] }
    ∀ excludes, c.patterns = .ok excludes → args.Apart c excludes "/p" flatProject := by
  intro args c excludes patterns
  have output (o : Place) (h : TagRun.OutputAt (args.outPath c "/p") flatProject o) : o = ["p", "dist"] :=
    h.eq ⟨by decide +kernel, by decide +kernel⟩
  apply @apart_of_excluded args c excludes "/p" "." flatProject tidy_flatProject (by decide)
    (linkFree_of_hasNoLink (by decide +kernel)) rfl (by decide) patterns
  · apply spared_flatProject (by decide +kernel)
    intro o place
    rw [output o place]
    decide
  · intro o p place found
    have target : flatProject.locatePath (args.target c "/p") = .ok (.found ["p"]) := by decide +kernel
    cases target.symm.trans found
    cases output o place
    refine ⟨by decide, fun ks same => ?_⟩
    cases same
    have path : relativeTo "/p" (joins "/p/." ["dist"]) = "dist" := by decide +kernel
    have plain : ∀ ch ∈ "dist".toList, Glob.isPlain ch = true := List.all_eq_true.1 (by decide)
    exact ⟨path.symm ▸ by decide, path.symm ▸ plain, path.symm ▸ List.mem_cons_self⟩

end TagArguments

end InPlace

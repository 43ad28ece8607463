import InPlace.Project.Init
import InPlace.Proofs.Files.Writing
import InPlace.Proofs.Json.Fields
import InPlace.Proofs.Json.Rereading

/-!
# Configurations that are written

A configuration is written without the fields that say nothing, and the reader knows which they are: the text of every
configuration is the text of this one. So a project that has been set up has the directories it was set up with.

Main statement: `ofText?_text_and_load`.
-/

namespace InPlace.ProjectConfig

open Json

/-! ## Fields -/

section

variable {α : Type} {k : String} {fs : List (String × Json)} {read : Json → Option α} {a d : α} {j : Json}

/-- A field that is there is read, also where it may be missing. -/
theorem withDefault?_of_lookup (h : lookup k fs = some j) (back : read j = some a) :
    withDefault? read d k fs = some a := by
  rw [withDefault?, h]
  exact back

/-- Of names that are all different none is written twice. -/
theorem occurrences_le_one_of_nodup (h : (fs.map Prod.fst).Nodup) (k : String) : occurrences k fs ≤ 1 := by
  have count : occurrences k fs = (fs.map Prod.fst).count k := by
    rw [occurrences, List.count, List.countP_map]
    rfl
  rw [count]
  exact List.nodup_iff_count_le_one.1 h k

end

variable {c : ProjectConfig}

/-- The fields are written under their names, in the order of the names, and some may be left out. -/
theorem fields_sublist (c : ProjectConfig) : (c.fields.map Prod.fst).Sublist fieldNames := by
  unfold fields
  cases c.exclude.isEmpty <;> cases c.outDir <;> simp [present, fieldNames]

theorem numberlessFields_fields (c : ProjectConfig) : numberlessFields c.fields = true := by
  unfold fields
  cases c.exclude.isEmpty <;> cases c.outDir <;>
    simp [present, numberlessFields, numberless, numberless_ofStrings]

theorem lookup_patterns {k : String} (hk : "exclude" ≠ k) :
    lookup k (if c.exclude = [] then [] else [("exclude", .ofStrings c.exclude)]) = none := by
  split
  · rfl
  · rw [lookup_cons, if_neg hk, lookup_nil]

/-- The patterns are left out if there are none, and then there are none by default. -/
theorem withDefault?_exclude (c : ProjectConfig) :
    withDefault? strings? ({} : ProjectConfig).exclude "exclude" c.fields = some c.exclude := by
  cases h : c.exclude with
  | nil =>
    have missing : lookup "exclude" c.fields = none := by simp [fields, h]
    rw [withDefault?, missing]
  | cons e es =>
    have there : lookup "exclude" c.fields = some (.ofStrings (e :: es)) := by simp [fields, h]
    exact withDefault?_of_lookup there (strings?_ofStrings _)

/-- The fields of a configuration are read back. -/
theorem ofFields?_fields (c : ProjectConfig) : ofFields? c.fields = some c := by
  have srcDir : withDefault? str? ({} : ProjectConfig).srcDir "srcDir" c.fields = some c.srcDir :=
    withDefault?_of_lookup (by simp [fields]) (str?_str _)
  have extensions : withDefault? strings? ({} : ProjectConfig).extensions "extensions" c.fields = some c.extensions :=
    withDefault?_of_lookup (by simp [fields]) (strings?_ofStrings _)
  have vendorDirs : withDefault? strings? ({} : ProjectConfig).vendorDirs "vendorDirs" c.fields = some c.vendorDirs :=
    withDefault?_of_lookup (by simp [fields]) (strings?_ofStrings _)
  have outDir : nullable? str? "outDir" c.fields = some c.outDir :=
    nullable?_map (f := str) (by simp [fields, lookup_patterns]) (fun s _ => str?_str s) (by rintro s ⟨⟩)
  have sourceMaps : withDefault? bool? ({} : ProjectConfig).sourceMaps "sourceMaps" c.fields = some c.sourceMaps :=
    withDefault?_of_lookup (by simp [fields, lookup_patterns]) (bool?_bool _)
  unfold ofFields?
  simp only [Option.bind_eq_bind, Option.bind_eq_some_iff]
  exact ⟨_, srcDir, _, extensions, _, vendorDirs, _, withDefault?_exclude c, _, outDir, _, sourceMaps, rfl⟩

/-- A configuration is read back from its text. -/
theorem ofText?_text (c : ProjectConfig) : ofText? c.text = some c := by
  have once : ∀ k ∈ fieldNames, occurrences k c.fields ≤ 1 := fun k _ =>
    occurrences_le_one_of_nodup ((fields_sublist c).nodup (by decide)) k
  have read : parseRecord? fieldNames c.text = some (.obj c.fields) :=
    parseRecord?_pretty (numberlessFields_fields c) fun f hf =>
      (fields_sublist c).subset (List.mem_map_of_mem hf)
  unfold ofText?
  simp only [Option.bind_eq_bind, Option.bind_eq_some_iff]
  exact ⟨_, read, _, record?_obj once, ofFields?_fields c⟩

/-! ## Setting up -/

variable {args : InitArguments} {dir : String} {files : Files.Tree} {j done : Job}

/-- What is said does not change the files. -/
theorem files_foldl_say (lines : List String) (j : Job) : (lines.foldl Job.say j).files = j.files := by
  induction lines generalizing j with
  | nil => rfl
  | cons line lines ih => exact ih _

/-- A configuration that can be read is the configuration of the project. -/
theorem load_of_readText {c : ProjectConfig} (read : files.readText (Text.Path.join dir fileName) = .ok c.text) :
    load files dir = .ok c := by
  unfold load
  dsimp only
  rw [if_pos (Files.Tree.pathExists_of_readText read), read]
  dsimp only
  rw [ofText?_text]

/-- A configuration that has been written is the configuration of the project. -/
theorem load_of_writeConfig (h : args.writeConfig dir j = (done, none)) : load done.files dir = .ok args.config := by
  unfold InitArguments.writeConfig at h
  split at h
  · cases h
  · rename_i written success
    cases h
    have read := Files.Tree.readText_of_writeText success
    rw [files_foldl_say]
    exact load_of_readText read

/-- What a project is set up with is what it has: every configuration is read back from its text, and where setting up
writes a configuration and succeeds, the one that is loaded has the directories and the flag that were asked for and is
the usual one in all else. -/
theorem ofText?_text_and_load :
    (∀ c : ProjectConfig, ofText? c.text = some c) ∧
      ∀ (args : InitArguments) (dir : String) (files : Files.Tree) (done : Job),
        (files.pathExists (Text.Path.join dir fileName) = false ∨ args.force = true) →
        args.run dir files = (done, none) →
          load done.files dir =
            .ok { srcDir := args.srcDir, outDir := some args.outDir, sourceMaps := args.sourceMaps } := by
  refine ⟨ofText?_text, fun args dir files done wanted h => ?_⟩
  have go : (files.pathExists (Text.Path.join dir fileName) && !args.force) = false := by
    rcases wanted with missing | force
    · rw [missing, Bool.false_and]
    · rw [force, Bool.not_true, Bool.and_false]
  unfold InitArguments.run at h
  dsimp only at h
  rw [go] at h
  simp only [Bool.false_eq_true, if_false] at h
  split at h
  · cases h
  · exact load_of_writeConfig h

/-- A project in a directory of its own, whose directories have quotes, a line break and an accent in their names. -/
theorem ofText?_text_and_load_accent :
    let args : InitArguments := { srcDir := "a\"b\n", outDir := "é", sourceMaps := true }
    let files : Files.Tree := .dir [("p", .dir [])]
    files.pathExists (Text.Path.join "/p" fileName) = false ∧ (args.run "/p" files).2 = none ∧
      load (args.run "/p" files).1.files "/p" =
        .ok { srcDir := "a\"b\n", outDir := some "é", sourceMaps := true } := by
  have missing : Files.Tree.pathExists (.dir [("p", .dir [])]) (Text.Path.join "/p" fileName) = false := by
    decide +kernel
  have success : (InitArguments.run { srcDir := "a\"b\n", outDir := "é", sourceMaps := true } "/p"
      (.dir [("p", .dir [])])).2 = none := by
    decide +kernel
  exact ⟨missing, success, ofText?_text_and_load.2 _ "/p" _ _ (.inl missing) (Prod.ext rfl success)⟩

end InPlace.ProjectConfig

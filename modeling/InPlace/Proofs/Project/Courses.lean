import InPlace.Proofs.Project.Listing

/-!
# The course of a run

Where the output directory can be made, a run makes it before it writes the first file. From then on the tree only
changes below it: directories on the way to files of the run are new, and their outputs and maps are written. Where the
output directory cannot be made, nothing is ever written.

Main statements: `gained_attempts`, `Stage.look?_eq` and `attempts_of_failed`.
-/

namespace InPlace

open Files Files.Tree Text.Path

variable {run : TagRun} {parse : String → Option Tsx.Node} {files later : List String} {t t₁ c d : Tree}
  {o p q : Place} {out file n : String}
  {ns : List String} {r : Tagging.Report}

/-- A map is made only where maps are asked for. -/
theorem Tagging.sourceMaps_of_map {options : Options} {source path : String} {m : SourceMap}
    (h : (tagWith parse options source path).map = some m) : options.sourceMaps = true := by
  unfold tagWith at h
  split at h
  · split at h
    · unfold tagTree at h
      dsimp only at h
      split at h
      · by_contra off
        rw [if_neg off] at h
        cases h
      · cases h
    · cases h
  · cases h

/-- A file has a map only if maps were asked for. -/
theorem sourceMaps_of_tagSourceFile {options : Tagging.Options} {root : String} {m : Tagging.SourceMap}
    (h : tagSourceFile parse t options file root = .ok r) (hm : r.map = some m) : options.sourceMaps = true := by
  unfold tagSourceFile at h
  split at h
  · cases h
    exact Tagging.sourceMaps_of_map hm
  · cases h

namespace TagRun

/-- The names of the map of a file. -/
def mapNamesOf (run : TagRun) (file : String) : List String :=
  pathNames (mapPath (run.nameOf file))

theorem Named.exists_eq (h : run.Named file) : ∃ ns n, run.namesOf file = ns ++ [n] :=
  let ⟨ns, n, hn⟩ := (List.eq_nil_or_concat' (run.namesOf file)).resolve_left h.nonempty
  ⟨ns, n, hn⟩

/-- The map of a file stands beside its output. -/
theorem Named.mapNamesOf_eq (h : run.Named file) (hn : run.namesOf file = ns ++ [n]) :
    run.mapNamesOf file = ns ++ [mapPath n] := by
  have proper := hn ▸ h.proper
  have plain : ∀ m ∈ ns ++ [mapPath n], Plain m := fun m hm => (List.mem_append.1 hm).elim
    (fun inner => (proper m (List.mem_append_left _ inner)).toPlain) fun one =>
      List.mem_singleton.1 one ▸ (proper n (List.mem_append_right _ List.mem_cons_self)).mapPath.toPlain
  rw [mapNamesOf, h.name, hn]
  show pathNames (joined (ns ++ [n]) ++ ".map") = _
  rw [joined_append]
  exact pathNames_joined plain

theorem Named.outputOf_eq (h : run.Named file) (hn : run.namesOf file = ns ++ [n]) (out : String) :
    run.outputOf out file = join out (joined (ns ++ [n])) := by
  rw [outputOf, h.name, hn]

/-- What may be different at a place in the course of a run: a directory on the way to a file is new, or the output or
the map of a file has been written. -/
inductive Change (run : TagRun) (files : List String) (t c : Tree) (o q : Place) : Prop
  | same (h : c.look? q = t.look? q)
  | made {f : String} (hf : f ∈ files) (ks : List String) (nonempty : ks ≠ []) (way : ks <+: (run.namesOf f).dropLast)
      (place : q = o ++ ks) (before : t.look? q = none) (after : c.look? q = some .dir)
  | code {f : String} (hf : f ∈ files) (place : q = o ++ run.namesOf f)
      (before : t.look? q = none ∨ ∃ old, t.look? q = some (.file old)) (after : ∃ new, c.look? q = some (.file new))
  | map {f : String} (hf : f ∈ files) (maps : run.options.sourceMaps = true) (place : q = o ++ run.mapNamesOf f)
      (before : t.look? q = none ∨ ∃ old, t.look? q = some (.file old)) (after : ∃ new, c.look? q = some (.file new))

theorem Change.congr (h : Change run files t c o q) (same : d.look? q = c.look? q) : Change run files t d o q := by
  cases h with
  | same h => exact .same (same.trans h)
  | made hf ks nonempty way place before after => exact .made hf ks nonempty way place before (same.trans after)
  | code hf place before after => exact .code hf place before (same ▸ after)
  | map hf maps place before after => exact .map hf maps place before (same ▸ after)

/-- A place where there is a file, or nothing, was so before. -/
theorem Change.before (h : Change run files t c o q) (hc : c.look? q = none ∨ ∃ old, c.look? q = some (.file old)) :
    t.look? q = none ∨ ∃ old, t.look? q = some (.file old) := by
  cases h with
  | same h => rwa [h] at hc
  | made hf ks nonempty way place before after => exact .inl before
  | code hf place before after => exact before
  | map hf maps place before after => exact before

/-- What has changed in the course of a run. -/
def Gained (run : TagRun) (files : List String) (t : Tree) (o : Place) (c : Tree) : Prop :=
  ∀ q, Change run files t c o q

theorem Gained.refl (run : TagRun) (files : List String) (t : Tree) (o : Place) : Gained run files t o t :=
  fun _ => .same rfl

/-- A tree that has gained outputs has grown. -/
theorem Gained.grows (h : Gained run files t o c) : t.Grows c := by
  refine .of_looks fun q => ?_
  cases h q with
  | same h => exact .inl h
  | made _ ks _ _ _ before after => exact .inr (.inl ⟨before, by rw [after]; nofun⟩)
  | code _ _ before after =>
    obtain ⟨new, hnew⟩ := after
    exact .inr (before.imp (fun none => ⟨none, by rw [hnew]; nofun⟩) fun old => ⟨old, new, hnew⟩)
  | map _ _ _ before after =>
    obtain ⟨new, hnew⟩ := after
    exact .inr (before.imp (fun none => ⟨none, by rw [hnew]; nofun⟩) fun old => ⟨old, new, hnew⟩)

/-- Writing one more file is one more step in the course of a run. -/
theorem Gained.deliver (h : Gained run files t o c) (there : c.look? o = some .dir) (hf : file ∈ files)
    (named : run.Named file) (hn : run.namesOf file = ns ++ [n])
    (maps : ∀ m, r.map = some m → run.options.sourceMaps = true) : Gained run files t o (c.deliver o ns n r).1 := by
  intro q
  cases look?_deliver there ns n r q with
  | same h' => exact (h q).congr h'
  | made ks nonempty way place before after =>
    -- what is missing now has been missing all along, since nothing that is there is ever taken away
    have nothing : t.look? q = none := by
      cases h q with
      | same same => exact same.symm.trans before
      | made _ _ _ _ _ nothing _ => exact nothing
      | code _ _ _ after' =>
        obtain ⟨new, hnew⟩ := after'
        cases hnew.symm.trans before
      | map _ _ _ _ after' =>
        obtain ⟨new, hnew⟩ := after'
        cases hnew.symm.trans before
    refine .made hf ks nonempty ?_ place nothing after
    rw [hn, List.dropLast_concat]
    exact way
  | code place before after => exact .code hf (by rw [hn, place]) ((h q).before before) ⟨_, after⟩
  | map hm place before after =>
    exact .map hf (maps _ hm) (by rw [named.mapNamesOf_eq hn, place]) ((h q).before before) ⟨_, after⟩

/-! ## Attempts -/

theorem attempt_of_error {e : OsError} (h : tagSourceFile parse t run.options file run.root = .error e) :
    run.attempt parse out t file = (t, .error e) := by
  unfold attempt
  rw [h]

/-- What is left of the tree, and whether the file is recorded. -/
theorem attempt_of_ok (out : String) (h : tagSourceFile parse t run.options file run.root = .ok r) :
    (run.attempt parse out t file).1 = (outcome (writeReport t r (run.outputOf out file))).1 ∧
      ((run.attempt parse out t file).2 = .ok r ∧ (outcome (writeReport t r (run.outputOf out file))).2 = true ∨
        (∃ e, (run.attempt parse out t file).2 = .error e) ∧
        (outcome (writeReport t r (run.outputOf out file))).2 = false) := by
  unfold attempt
  rw [h]
  dsimp only
  cases writeReport t r (run.outputOf out file) with
  | mk c fault =>
    cases fault with
    | none => exact ⟨rfl, .inl ⟨rfl, rfl⟩⟩
    | some e => exact ⟨rfl, .inr ⟨⟨e, rfl⟩, rfl⟩⟩

theorem attempts_append (run : TagRun) (parse : String → Option Tsx.Node) (out : String) (t : Tree)
    (files later : List String) :
    (run.attempts parse out t (files ++ later)).1 =
      (run.attempts parse out (run.attempts parse out t files).1 later).1 := by
  induction files generalizing t with
  | nil => rfl
  | cons file files ih => exact ih _

/-! ## Where the output directory can be made -/

/-- The output directory can be made, and no link stands below it: the tree with it, and its place. -/
structure Begins (out : String) (t t₁ : Tree) (o : Place) : Prop where
  absolute : isAbsolute out
  made : outcome (t.makeAll (above (plainNames out))) = (t₁, true)
  leads : t₁.LeadsTo (plainNames out) o
  free : t₁.LinkFree o

theorem Begins.wider (h : Begins out t t₁ o) : t.Wider t₁ :=
  wider_of_outcome h.made

theorem Begins.clean (h : Begins out t t₁ o) : Clean (plainNames out) :=
  clean_of_made (fun _ => plain_of_mem_plainNames) h.made

/-- A tree in the course of a run: the output directory has not been made, or what has changed since is known. -/
def Stage (run : TagRun) (files : List String) (t t₁ : Tree) (o : Place) (c : Tree) : Prop :=
  c = t ∨ Gained run files t₁ o c

theorem Stage.grows (h : Stage run files t t₁ o c) (begins : Begins out t t₁ o) : t.Grows c := by
  rcases h with rfl | gained
  · exact .refl c
  · exact begins.wider.grows.trans gained.grows

/-- Before a file is written the output directory is there. -/
theorem Stage.prepared (h : Stage run files t t₁ o c) (begins : Begins out t t₁ o) :
    ∃ c₁, outcome (c.makeAll (above (plainNames out))) = (c₁, true) ∧ Gained run files t₁ o c₁ ∧
      (Gained run files t₁ o c → c₁ = c) := by
  by_cases gained : Gained run files t₁ o c
  · refine ⟨c, ?_, gained, fun _ => rfl⟩
    rw [(gained.grows.leadsTo begins.leads).makeAll (fun _ => plain_of_mem_plainNames) begins.clean]
    rfl
  · rw [h.resolve_right gained]
    exact ⟨t₁, begins.made, .refl run files t₁ o, fun other => absurd (h.resolve_right gained ▸ other) gained⟩

/-- A file that is tagged is written below the output directory. -/
theorem attempt_eq_deliver (begins : Begins out t t₁ o) (stage : Stage run files t t₁ o c) (named : run.Named file)
    (hn : run.namesOf file = ns ++ [n]) (ok : tagSourceFile parse c run.options file run.root = .ok r) :
    ∃ c₁, outcome (c.makeAll (above (plainNames out))) = (c₁, true) ∧ Gained run files t₁ o c₁ ∧
      (Gained run files t₁ o c → c₁ = c) ∧ (run.attempt parse out c file).1 = (c₁.deliver o ns n r).1 := by
  obtain ⟨c₁, made, gained, same⟩ := stage.prepared begins
  refine ⟨c₁, made, gained, same, ?_⟩
  rw [(attempt_of_ok out ok).1, named.outputOf_eq hn,
    outcome_writeReport begins.absolute (hn ▸ named.proper) made (gained.grows.leadsTo begins.leads)
      (gained.grows.linkFree begins.free)]

/-- With each attempt a tree gains an output or stays as it is. -/
theorem gained_attempt (begins : Begins out t t₁ o) (stage : Stage run files t t₁ o c) (hf : file ∈ files)
    (named : run.Named file) : Stage run files t t₁ o (run.attempt parse out c file).1 ∧
      (Gained run files t₁ o c → Gained run files t₁ o (run.attempt parse out c file).1) := by
  cases ok : tagSourceFile parse c run.options file run.root with
  | error e =>
    rw [attempt_of_error ok]
    exact ⟨stage, id⟩
  | ok r =>
    obtain ⟨ns, n, hn⟩ := named.exists_eq
    obtain ⟨c₁, -, gained, -, tree⟩ := attempt_eq_deliver begins stage named hn ok
    rw [tree]
    have next := gained.deliver (gained.grows.dir o begins.leads.dir) hf named hn fun m hm =>
      sourceMaps_of_tagSourceFile ok hm
    exact ⟨.inr next, fun _ => next⟩

/-- What has changed after any part of a run. -/
theorem gained_attempts (begins : Begins out t t₁ o) (stage : Stage run files t t₁ o c) (hs : ∀ f ∈ later, f ∈ files)
    (named : ∀ f ∈ files, run.Named f) : Stage run files t t₁ o (run.attempts parse out c later).1 := by
  induction later generalizing c with
  | nil => exact stage
  | cons file later ih =>
    have hf := hs file List.mem_cons_self
    exact ih (gained_attempt begins stage hf (named file hf)).1 fun f hm => hs f (List.mem_cons_of_mem _ hm)

/-- Once the output directory has been made the rest of a run finds it. -/
theorem Gained.attempts (gained : Gained run files t₁ o c) (begins : Begins out t t₁ o) (hs : ∀ f ∈ later, f ∈ files)
    (named : ∀ f ∈ files, run.Named f) : Gained run files t₁ o (run.attempts parse out c later).1 := by
  induction later generalizing c with
  | nil => exact gained
  | cons file later ih =>
    have hf := hs file List.mem_cons_self
    exact ih ((gained_attempt begins (.inr gained) hf (named file hf)).2 gained) fun f hm =>
      hs f (List.mem_cons_of_mem _ hm)

/-! ## What a run reads -/

/-- What is not below the output directory stays what it is. -/
theorem Stage.look?_eq (h : Stage run files t t₁ o c) (begins : Begins out t t₁ o) (outside : ¬ o <+: p)
    (there : t.look? p ≠ none) : c.look? p = t.look? p := by
  rcases h with rfl | gained
  · rfl
  · have same : t₁.look? p = t.look? p := (begins.wider p).resolve_right fun made => there made.1
    rw [← same]
    cases gained p with
    | same h => exact h
    | made _ ks _ _ place _ _ => exact absurd ⟨ks, place.symm⟩ outside
    | code _ place _ _ => exact absurd ⟨_, place.symm⟩ outside
    | map _ _ place _ _ => exact absurd ⟨_, place.symm⟩ outside

end TagRun

end InPlace

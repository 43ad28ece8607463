import InPlace.Proofs.Project.Courses

/-!
# What a run leaves

The output directory of a run is set apart if no link stands below it and no file of the run does. Then the run writes the
tagged code of each file that can be read and has room, and what it writes for one file it neither takes from nor writes
over another. Nothing else changes but that there are new directories.

Main statement: `run_delivers`.
-/

namespace InPlace

open Files Files.Tree Text.Path

variable {run : TagRun} {parse : String → Option Tsx.Node} {files before later : List String} {t t₁ c d : Tree}
  {o p q : Place} {out file source : String}
  {ns : List String} {n : String}

namespace TagRun

/-- The output directory is set apart: where it can be made no link stands below it, and no file of the run. -/
structure SetApart (out : String) (files : List String) (t : Tree) : Prop where
  free : ∀ t₁ o, outcome (t.makeAll (above (plainNames out))) = (t₁, true) → t₁.LeadsTo (plainNames out) o → t₁.LinkFree o
  outside : ∀ t₁ o, outcome (t.makeAll (above (plainNames out))) = (t₁, true) → t₁.LeadsTo (plainNames out) o →
    ∀ f ∈ files, ∀ p, t.locatePath f = .ok (.found p) → ¬ o <+: p

/-- There is room for what is written for a file: the output directory is there or can be made, and nothing stands in the
way below it. -/
def Writable (run : TagRun) (out : String) (t : Tree) (file : String) : Prop :=
  ∃ t₁ o ns n, outcome (t.makeAll (above (plainNames out))) = (t₁, true) ∧ t₁.LeadsTo (plainNames out) o ∧
    run.namesOf file = ns ++ [n] ∧ Room t₁ o ns n

/-- There is room for the map of a file, where there is room for the file. -/
def MapWritable (run : TagRun) (out : String) (t : Tree) (file : String) : Prop :=
  ∃ t₁ o ns n, outcome (t.makeAll (above (plainNames out))) = (t₁, true) ∧ t₁.LeadsTo (plainNames out) o ∧
    run.namesOf file = ns ++ [n] ∧ Room t₁ o ns (mapPath n)

/-- What is made of the text of a file. -/
def reportOf (run : TagRun) (parse : String → Option Tsx.Node) (file source : String) : Tagging.Report :=
  Tagging.tagWith parse run.options source (relativeTo run.root file)

/-- A file is tagged exactly if its text can be read. -/
theorem tagSourceFile_eq_ok_iff {r : Tagging.Report} : tagSourceFile parse t run.options file run.root = .ok r ↔
    ∃ source, t.readText file = .ok source ∧ r = run.reportOf parse file source := by
  unfold tagSourceFile
  cases t.readText file with
  | error e => exact ⟨nofun, fun ⟨_, h, _⟩ => nomatch h⟩
  | ok s =>
    constructor
    · intro h
      cases h
      exact ⟨s, rfl, rfl⟩
    · rintro ⟨source, h, rfl⟩
      cases h
      rfl

/-! ## Where the output directory cannot be made -/

/-- What could not be made at first cannot be made later. -/
theorem makeAll_of_failed (failed : outcome (t.makeAll (above (plainNames out))) = (t₁, false)) (hc : c = t ∨ c = t₁) :
    outcome (c.makeAll (above (plainNames out))) = (t₁, false) := by
  rcases hc with rfl | rfl
  · exact failed
  · have plain : ∀ m ∈ plainNames out, Plain m := fun m => plain_of_mem_plainNames
    have twice := makeAll_makeAll t plain
    rwa [fst_of_outcome failed, failed] at twice

/-- Where the output directory cannot be made, an attempt leaves what could be made of it. -/
theorem attempt_of_failed (absolute : isAbsolute out) (failed : outcome (t.makeAll (above (plainNames out))) = (t₁, false))
    (hc : c = t ∨ c = t₁) (named : run.Named file) :
    ((run.attempt parse out c file).1 = t ∨ (run.attempt parse out c file).1 = t₁) ∧
      ∃ e, (run.attempt parse out c file).2 = .error e := by
  have again := makeAll_of_failed failed hc
  cases ok : tagSourceFile parse c run.options file run.root with
  | error e =>
    rw [attempt_of_error ok]
    exact ⟨hc, e, rfl⟩
  | ok r =>
    obtain ⟨ns, n, hn⟩ := named.exists_eq
    obtain ⟨tree, report⟩ := attempt_of_ok out ok
    rw [named.outputOf_eq hn, outcome_writeReport_of_failed absolute (hn ▸ named.proper) again] at tree report
    exact ⟨.inr tree, (report.resolve_left fun h => Bool.false_ne_true h.2).1⟩

/-- Where the output directory cannot be made, no file is recorded. -/
theorem attempts_of_failed (parse : String → Option Tsx.Node) (absolute : isAbsolute out)
    (failed : outcome (t.makeAll (above (plainNames out))) = (t₁, false)) (hc : c = t ∨ c = t₁)
    (named : ∀ f ∈ later, run.Named f) :
    ((run.attempts parse out c later).1 = t ∨ (run.attempts parse out c later).1 = t₁) ∧
      ∀ x ∈ (run.attempts parse out c later).2, ∃ e, x = .error e := by
  induction later generalizing c with
  | nil => exact ⟨hc, nofun⟩
  | cons file later ih =>
    obtain ⟨tree, report⟩ := attempt_of_failed absolute failed hc (named file List.mem_cons_self)
    obtain ⟨trees, reports⟩ := ih tree fun f hf => named f (List.mem_cons_of_mem _ hf)
    exact ⟨trees, fun x hx => (List.mem_cons.1 hx).elim (fun same => same ▸ report) (reports x)⟩

/-! ## Where it can be made -/

/-- Where the output directory can be made there is room as there is below it. -/
theorem writable_iff (made : outcome (c.makeAll (above (plainNames out))) = (t₁, true))
    (leads : t₁.LeadsTo (plainNames out) o) (hn : run.namesOf file = ns ++ [n]) :
    (run.Writable out c file ↔ Room t₁ o ns n) ∧ (run.MapWritable out c file ↔ Room t₁ o ns (mapPath n)) := by
  have same {t₂ : Tree} {o' : Place} {ms : List String} {m : String}
      (made' : outcome (c.makeAll (above (plainNames out))) = (t₂, true)) (leads' : t₂.LeadsTo (plainNames out) o')
      (hm : run.namesOf file = ms ++ [m]) : t₁ = t₂ ∧ o = o' ∧ ns = ms ∧ n = m := by
    obtain ⟨front, last⟩ := List.append_inj' (hn.symm.trans hm) rfl
    cases made.symm.trans made'
    exact ⟨rfl, leads.unique leads', front, List.singleton_inj.1 last⟩
  constructor
  · refine ⟨fun ⟨t₂, o', ms, m, made', leads', hm, room⟩ => ?_, fun room => ⟨t₁, o, ns, n, made, leads, hn, room⟩⟩
    obtain ⟨rfl, rfl, rfl, rfl⟩ := same made' leads' hm
    exact room
  · refine ⟨fun ⟨t₂, o', ms, m, made', leads', hm, room⟩ => ?_, fun room => ⟨t₁, o, ns, n, made, leads, hn, room⟩⟩
    obtain ⟨rfl, rfl, rfl, rfl⟩ := same made' leads' hm
    exact room

/-- A file that can be read is recorded exactly if there is room for it, and for its map if it has one. -/
theorem attempt_snd_iff (parse : String → Option Tsx.Node) (begins : Begins out t t₁ o)
    (stage : Stage run files t t₁ o c) (named : run.Named file)
    (read : c.readText file = .ok source) :
    (run.attempt parse out c file).2 = .ok (run.reportOf parse file source) ↔
      run.Writable out c file ∧ ((run.reportOf parse file source).map ≠ none → run.MapWritable out c file) := by
  have ok : tagSourceFile parse c run.options file run.root = .ok (run.reportOf parse file source) :=
    tagSourceFile_eq_ok_iff.2 ⟨source, read, rfl⟩
  obtain ⟨c₁, made, gained, -⟩ := stage.prepared begins
  have leads := gained.grows.leadsTo begins.leads
  obtain ⟨ns, n, hn⟩ := named.exists_eq
  obtain ⟨code, map⟩ := writable_iff made leads hn
  obtain ⟨-, report⟩ := attempt_of_ok out ok
  rw [named.outputOf_eq hn, outcome_writeReport begins.absolute (hn ▸ named.proper) made leads
    (gained.grows.linkFree begins.free)] at report
  have recorded : (run.attempt parse out c file).2 = .ok (run.reportOf parse file source) ↔
      (c₁.deliver o ns n (run.reportOf parse file source)).2 = true := by
    rcases report with ⟨same, all⟩ | ⟨⟨e, error⟩, some⟩
    · exact iff_of_true same all
    · refine iff_of_false (fun same => ?_) (by rw [some]; exact Bool.false_ne_true)
      cases error.symm.trans same
  rw [recorded, deliver_snd_iff leads.dir, code, map]
  refine and_congr_right fun _ => ?_
  rw [Option.ne_none_iff_exists', forall_exists_index]

/-- A file that can be read and has room is written. -/
theorem look?_attempt_code (begins : Begins out t t₁ o) (stage : Stage run files t t₁ o c) (hf : file ∈ files)
    (named : run.Named file) (read : c.readText file = .ok source) (room : run.Writable out c file) :
    Gained run files t₁ o (run.attempt parse out c file).1 ∧
      (run.attempt parse out c file).1.look? (o ++ run.namesOf file) =
        some (.file (run.reportOf parse file source).code.toUTF8) := by
  have ok : tagSourceFile parse c run.options file run.root = .ok (run.reportOf parse file source) :=
    tagSourceFile_eq_ok_iff.2 ⟨source, read, rfl⟩
  obtain ⟨c₁, o', ns, n, made', leads', hn, room⟩ := room
  obtain ⟨c₁', made, gained, -⟩ := stage.prepared begins
  cases made.symm.trans made'
  have leads := gained.grows.leadsTo begins.leads
  cases leads.unique leads'
  have written := outcome_writeReport (r := run.reportOf parse file source) begins.absolute (hn ▸ named.proper) made leads
    (gained.grows.linkFree begins.free)
  obtain ⟨tree, -⟩ := attempt_of_ok out ok
  rw [named.outputOf_eq hn, written] at tree
  rw [tree, hn]
  exact ⟨gained.deliver leads.dir hf named hn fun m hm => sourceMaps_of_tagSourceFile ok hm,
    look?_deliver_code leads.dir room⟩

/-- A file has no map where maps are not asked for. -/
theorem map_reportOf_eq_none (maps : run.options.sourceMaps = false) : (run.reportOf parse file source).map = none := by
  cases hm : (run.reportOf parse file source).map with
  | none => rfl
  | some m =>
    have on := Tagging.sourceMaps_of_map hm
    rw [maps] at on
    cases on

/-- What has been written for one file another file leaves alone. -/
theorem look?_attempt_other (begins : Begins out t t₁ o) (gained : Gained run files t₁ o c) (named : run.Named file)
    {ks : List String} {content : ByteArray} (code : run.namesOf file ≠ ks) (map : run.mapNamesOf file ≠ ks)
    (there : c.look? (o ++ ks) = some (.file content)) :
    (run.attempt parse out c file).1.look? (o ++ ks) = some (.file content) := by
  cases ok : tagSourceFile parse c run.options file run.root with
  | error e => rwa [attempt_of_error ok]
  | ok r =>
    obtain ⟨ns, n, hn⟩ := named.exists_eq
    obtain ⟨c₁, -, -, same, tree⟩ := attempt_eq_deliver begins (.inr gained) named hn ok
    rw [tree, same gained]
    cases look?_deliver (gained.grows.dir o begins.leads.dir) ns n r (o ++ ks) with
    | same h => exact h.trans there
    | made _ _ _ _ before _ => cases before.symm.trans there
    | code place _ _ => exact absurd (hn.trans (List.append_cancel_left place).symm) code
    | map _ place _ _ => exact absurd ((named.mapNamesOf_eq hn).trans (List.append_cancel_left place).symm) map

/-- What is no output of later files stays as it is while these are attempted. -/
theorem look?_attempts_others (parse : String → Option Tsx.Node) (begins : Begins out t t₁ o)
    (gained : Gained run files t₁ o c) (hs : ∀ f ∈ later, f ∈ files)
    (named : ∀ f ∈ files, run.Named f) {ks : List String} {content : ByteArray}
    (others : ∀ f ∈ later, run.namesOf f ≠ ks ∧ run.mapNamesOf f ≠ ks) (there : c.look? (o ++ ks) = some (.file content)) :
    (run.attempts parse out c later).1.look? (o ++ ks) = some (.file content) := by
  induction later generalizing c with
  | nil => exact there
  | cons file later ih =>
    have hf := hs file List.mem_cons_self
    obtain ⟨code, map⟩ := others file List.mem_cons_self
    exact ih ((gained_attempt begins (.inr gained) hf (named file hf)).2 gained)
      (fun f hm => hs f (List.mem_cons_of_mem _ hm)) (fun f hm => others f (List.mem_cons_of_mem _ hm))
      (look?_attempt_other begins gained (named file hf) code map there)

/-! ## The whole run -/

/-- What is different at a place after a run: a directory is new, or a file below the output directory has been written,
the output of a file of the run or its map. -/
inductive Changed (run : TagRun) (out : String) (files : List String) (t d : Tree) (q : Place) : Prop
  | same (h : d.look? q = t.look? q)
  | made (before : t.look? q = none) (after : d.look? q = some .dir)
  | written {o : Place} {f : String} (leads : d.LeadsTo (plainNames out) o) (hf : f ∈ files)
      (place : q = o ++ run.namesOf f ∨ run.options.sourceMaps = true ∧ q = o ++ run.mapNamesOf f)
      (before : t.look? q = none ∨ ∃ old, t.look? q = some (.file old)) (after : ∃ new, d.look? q = some (.file new))

/-- In every stage a place is as it was, a directory that was made, or an output. -/
theorem Stage.changed (h : Stage run files t t₁ o c) (begins : Begins out t t₁ o) (q : Place) :
    Changed run out files t c q := by
  rcases h with rfl | gained
  · exact .same rfl
  · have leads := gained.grows.leadsTo begins.leads
    have before (h : t₁.look? q = none ∨ ∃ old, t₁.look? q = some (.file old)) :
        t.look? q = none ∨ ∃ old, t.look? q = some (.file old) := by
      rcases begins.wider q with same | ⟨nothing, -⟩
      · rwa [same] at h
      · exact .inl nothing
    cases gained q with
    | same h =>
      rcases begins.wider q with same | ⟨nothing, made⟩
      · exact .same (h.trans same)
      · exact .made nothing (h.trans made)
    | made _ _ _ _ _ nothing made =>
      rcases before (.inl nothing) with none | ⟨old, file⟩
      · exact .made none made
      · rcases begins.wider q with same | ⟨none, -⟩
        · cases (file.symm.trans same.symm).trans nothing
        · exact .made none made
    | code hf place old new => exact .written leads hf (.inl place) (before old) new
    | map hf maps place old new => exact .written leads hf (.inr ⟨maps, place⟩) (before old) new

/-- What becomes of a file in a run over `files`: it is recorded, with the report of what it held, or it is an error. If it
can be read, it is recorded exactly if there is room for it in its turn, and for its map if it has one; if there is room
for it, its tagged code is in the output directory in the end. Room that there is at the beginning nothing but a map takes
away, if it has the name of a directory on the way. -/
structure Fate (run : TagRun) (parse : String → Option Tsx.Node) (out : String) (files : List String) (t turn d : Tree)
    (f : String) (x : Except OsError Tagging.Report) : Prop where
  recorded : ∀ r, x = .ok r → ∃ source, t.readText f = .ok source ∧ r = run.reportOf parse f source
  written : ∀ source, t.readText f = .ok source → run.Writable out turn f →
    d.readText (run.outputOf out f) = .ok (run.reportOf parse f source).code ∧
      (run.options.sourceMaps = false → x = .ok (run.reportOf parse f source))
  recorded_iff : ∀ source, t.readText f = .ok source → (x = .ok (run.reportOf parse f source) ↔
    run.Writable out turn f ∧ ((run.reportOf parse f source).map ≠ none → run.MapWritable out turn f))
  room : run.Writable out t f →
    (run.options.sourceMaps = true → ∀ g ∈ files, ¬ run.mapNamesOf g <+: (run.namesOf f).dropLast) →
    run.Writable out turn f

theorem ok_of_attempt {r : Tagging.Report} (h : (run.attempt parse out c file).2 = .ok r) :
    ∃ source, c.readText file = .ok source ∧ r = run.reportOf parse file source := by
  cases ok : tagSourceFile parse c run.options file run.root with
  | error e =>
    rw [attempt_of_error ok] at h
    cases h
  | ok r' =>
    rcases (attempt_of_ok out ok).2 with ⟨same, -⟩ | ⟨⟨e, error⟩, -⟩
    · cases h.symm.trans same
      exact tagSourceFile_eq_ok_iff.1 ok
    · cases h.symm.trans error

/-- Files of a run that are apart from the output directory read the same in the course of the run. -/
theorem Stage.readText_eq (h : Stage run files t t₁ o c) (begins : Begins out t t₁ o) (file' : t.isFile file = true)
    (outside : ∀ p, t.locatePath file = .ok (.found p) → ¬ o <+: p) : c.readText file = t.readText file := by
  refine (h.grows begins).readText_eq file' fun p found => ?_
  obtain ⟨q, content, found', there⟩ := isFile_eq.1 file'
  cases found.symm.trans found'
  exact h.look?_eq begins (outside p found) (by rw [there]; exact Option.some_ne_none _)

/-- The output of a file is where its names lead to below the output directory. -/
theorem readText_outputOf (begins : Begins out t t₁ o) (gained : Gained run files t₁ o d) (named : run.Named file)
    (short : ∀ m ∈ run.namesOf file, ¬ maxNameLength < m.utf8ByteSize)
    (there : d.look? (o ++ run.namesOf file) = some (.file source.toUTF8)) :
    d.readText (run.outputOf out file) = .ok source := by
  obtain ⟨ns, n, hn⟩ := named.exists_eq
  have proper := hn ▸ named.proper
  rw [hn] at short there
  have inside : d.look? (o ++ ns) = some .dir := by
    rw [← List.append_assoc] at there
    exact look?_of_snoc (by rw [there]; exact Option.some_ne_none _)
  have leads := (gained.grows.leadsTo begins.leads).below (fun m hm => proper m (List.mem_append_left _ hm))
    (fun m hm => short m (List.mem_append_left _ hm)) inside
  have free := ((gained.grows.linkFree begins.free).below ns) [n]
  have found := locatePath_file leads begins.clean proper free
  rw [if_neg (short n (List.mem_append_right _ List.mem_cons_self)), if_neg] at found
  · rw [named.outputOf_eq hn, readText_eq_ok_iff]
    exact ⟨_, found, by rwa [List.append_assoc]⟩
  · rw [List.append_assoc, there]
    exact Option.some_ne_none _

/-- Names that have room are not too long. -/
theorem Writable.short (h : run.Writable out t file) : ∀ m ∈ run.namesOf file, ¬ maxNameLength < m.utf8ByteSize := by
  obtain ⟨t₁, o, ns, n, -, -, hn, room⟩ := h
  rw [hn]
  exact room.short

theorem attempts_snd_append (run : TagRun) (parse : String → Option Tsx.Node) (out : String) (t : Tree)
    (files later : List String) :
    (run.attempts parse out t (files ++ later)).2 =
      (run.attempts parse out t files).2 ++ (run.attempts parse out (run.attempts parse out t files).1 later).2 := by
  induction files generalizing t with
  | nil => rfl
  | cons file files ih => exact congrArg (List.cons _) (ih _)

/-- The outcome of a file is that of the attempt in its turn. -/
theorem getElem?_attempts (run : TagRun) (parse : String → Option Tsx.Node) (out : String) (t : Tree)
    (before : List String) (f : String) (later : List String) :
    (run.attempts parse out t (before ++ f :: later)).2[before.length]? =
      some (run.attempt parse out (run.attempts parse out t before).1 f).2 := by
  have length := length_attempts run parse out t before
  rw [attempts_snd_append, List.getElem?_append_right (Nat.le_of_eq length), length, Nat.sub_self]
  rfl

/-- Room is not taken away by what is written for other files, but for their maps. -/
theorem Stage.writable (stage : Stage run files t t₁ o c) (begins : Begins out t t₁ o) (listing : run.Listing files)
    (hf : file ∈ files) (room : run.Writable out t file)
    (maps : run.options.sourceMaps = true → ∀ g ∈ files, ¬ run.mapNamesOf g <+: (run.namesOf file).dropLast) :
    run.Writable out c file := by
  obtain ⟨t₁', o', ns, n, made', leads', hn, room⟩ := room
  cases begins.made.symm.trans made'
  cases begins.leads.unique leads'
  obtain ⟨c₁, made, gained, -⟩ := stage.prepared begins
  refine ⟨c₁, o, ns, n, made, gained.grows.leadsTo begins.leads, hn, room.short, fun ks hk way => ?_, ?_⟩
  · cases gained (o ++ ks) with
    | same h =>
      rw [h]
      exact room.way ks hk way
    | made _ _ _ _ _ _ after => exact .inr after
    | code hg place _ _ =>
      obtain ⟨rest, rfl⟩ := way
      have whole := listing.apart _ hg _ hf (rest ++ [n]) (by rw [hn, List.append_assoc, ← List.append_cancel_left place])
      exact absurd whole (by simp)
    | map hg on place _ _ =>
      refine absurd ?_ (maps on _ hg)
      rw [← List.append_cancel_left place, hn, List.dropLast_concat]
      exact way
  · cases gained (o ++ (ns ++ [n])) with
    | same h =>
      rw [h]
      exact room.place
    | @made g hg ks _ way place _ _ =>
      obtain ⟨rest, last⟩ := way
      obtain ⟨ms, m, hm⟩ := (listing.named g hg).exists_eq
      rw [hm, List.dropLast_concat] at last
      have whole := listing.apart _ hf _ hg (rest ++ [m]) (by
        rw [hm, ← last, hn, List.append_cancel_left place, List.append_assoc])
      exact absurd whole (by simp)
    | code _ _ _ after => exact .inr after
    | map _ _ _ _ after => exact .inr after

/-- Where the output directory can be made, each file has its fate. -/
theorem fate_attempt (begins : Begins out t t₁ o) (apart : SetApart out files t) (listing : run.Listing files)
    (there : ∀ f ∈ files, t.isFile f = true) (hf : files = before ++ file :: later) :
    Fate run parse out files t (run.attempts parse out t before).1 (run.attempts parse out t files).1 file
      (run.attempt parse out (run.attempts parse out t before).1 file).2 := by
  have mem : file ∈ files := hf ▸ List.mem_append_right _ List.mem_cons_self
  have named := listing.named file mem
  have stage : Stage run files t t₁ o (run.attempts parse out t before).1 :=
    gained_attempts begins (.inl rfl) (fun f hm => hf ▸ List.mem_append_left _ hm) listing.named
  have same := stage.readText_eq begins (there file mem) (apart.outside t₁ o begins.made begins.leads file mem)
  have recorded (source : String) (read : t.readText file = .ok source) :=
    attempt_snd_iff parse begins stage named (same.trans read)
  refine ⟨fun r h => ?_, fun source read room => ?_, recorded, stage.writable begins listing mem⟩
  · obtain ⟨source, read, report⟩ := ok_of_attempt h
    exact ⟨source, same ▸ read, report⟩
  · obtain ⟨gained, code⟩ := look?_attempt_code begins stage mem named (same.trans read) room
    refine ⟨?_, fun maps => (recorded source read).2 ⟨room, fun map => absurd (map_reportOf_eq_none maps) map⟩⟩
    -- no later file, nor its map, has the same place, so what was written stays
    have others (g : String) (hg : g ∈ later) :
        run.namesOf g ≠ run.namesOf file ∧ run.mapNamesOf g ≠ run.namesOf file := by
      have mem' : g ∈ files := hf ▸ List.mem_append_right _ (List.mem_cons_of_mem _ hg)
      have nodup := listing.nodup
      have sorted := listing.sorted
      rw [hf] at nodup sorted
      constructor
      · intro alike
        have twice := listing.injective g mem' file mem alike
        exact (List.nodup_cons.1 (List.nodup_append.1 nodup).2.1).1 (twice ▸ hg)
      · obtain ⟨ns, n, hn⟩ := (listing.named g mem').exists_eq
        rw [(listing.named g mem').mapNamesOf_eq hn]
        exact fun alike => (List.pairwise_cons.1 (List.pairwise_append.1 sorted).2.1).1 g hg ns n hn alike.symm
    have hs : ∀ f ∈ later, f ∈ files := fun f hm => hf ▸ List.mem_append_right _ (List.mem_cons_of_mem _ hm)
    have stays := look?_attempts_others parse begins gained hs listing.named others code
    have final : (run.attempts parse out (run.attempt parse out (run.attempts parse out t before).1 file).1 later).1 =
        (run.attempts parse out t files).1 := by
      rw [hf, attempts_append]
      rfl
    have rest : Gained run files t₁ o (run.attempts parse out _ later).1 := gained.attempts begins hs listing.named
    rw [final] at stays rest
    exact readText_outputOf begins rest named room.short stays

/-- What becomes of the files of a run and of the rest of the tree. -/
theorem attempts_deliver (absolute : isAbsolute out) (apart : SetApart out files t) (listing : run.Listing files)
    (there : ∀ f ∈ files, t.isFile f = true) :
    (∀ q, Changed run out files t (run.attempts parse out t files).1 q) ∧
      ∀ before f later, files = before ++ f :: later → ∃ x, (run.attempts parse out t files).2[before.length]? = some x ∧
        Fate run parse out files t (run.attempts parse out t before).1 (run.attempts parse out t files).1 f x := by
  have nth (before : List String) (f : String) (later : List String) (hf : files = before ++ f :: later) :
      (run.attempts parse out t files).2[before.length]? =
        some (run.attempt parse out (run.attempts parse out t before).1 f).2 := by
    rw [hf]
    exact getElem?_attempts run parse out t before f later
  cases made : outcome (t.makeAll (above (plainNames out))) with
  | mk t₁ went =>
    -- the output directory is the same attempt for all files: it is made for the first of them, or for none
    cases went with
    | true =>
      have plain : ∀ m ∈ plainNames out, Plain m := fun m => plain_of_mem_plainNames
      obtain ⟨o, leads⟩ := leadsTo_of_makeAll plain (clean_of_made plain made) made
      have begins : Begins out t t₁ o := ⟨absolute, made, leads, apart.free t₁ o made leads⟩
      refine ⟨?_, fun before f later hf => ⟨_, nth before f later hf, fate_attempt begins apart listing there hf⟩⟩
      exact (gained_attempts begins (.inl rfl) (fun f hf => hf) listing.named).changed begins
    | false =>
      obtain ⟨tree, errors⟩ := attempts_of_failed parse absolute made (.inl rfl) listing.named
      have wider : t.Wider t₁ := wider_of_outcome made
      constructor
      · intro q
        rcases tree with same | same
        · exact .same (by rw [same])
        · rw [same]
          exact (wider q).elim .same fun new => .made new.1 new.2
      · intro before f later hf
        obtain ⟨e, error⟩ := errors _ (List.mem_of_getElem? (nth before f later hf))
        have inner : ∀ f ∈ before, run.Named f := fun f hm => listing.named f (hf ▸ List.mem_append_left _ hm)
        have turn := (attempts_of_failed parse absolute made (.inl rfl) inner).1
        have full : ¬ run.Writable out (run.attempts parse out t before).1 f := by
          rintro ⟨c₁, o, ns, n, made', -⟩
          cases (makeAll_of_failed made turn).symm.trans made'
        refine ⟨_, nth before f later hf, fun r h => ?_, fun source read room => absurd room full,
          fun source read => iff_of_false (fun h => ?_) fun room => full room.1, fun room => ?_⟩
        · cases h.symm.trans error
        · cases h.symm.trans error
        · obtain ⟨c₁, o, ns, n, made', -⟩ := room
          cases made.symm.trans made'

end TagRun

namespace TagArguments

variable {args : TagArguments} {c : ProjectConfig} {excludes : List Text.Glob} {dir : String}

/-- The place of the directory whose files are tagged, for a target at a place. -/
def basePlace (t : Tree) (p : Place) : Place :=
  if t.look? p = some .dir then p else p.dropLast

/-- Where there are no links, the output directory is set apart if neither it nor the base contains the other. -/
theorem setApart_of_linkFree (ht : t.Tidy) (free : t.LinkFree [])
    (apart : ∀ t₁ o p, outcome (t.makeAll (above (plainNames out))) = (t₁, true) → t₁.LeadsTo (plainNames out) o →
      t.locatePath (args.target c dir) = .ok (.found p) → ¬ o <+: basePlace t p ∧ ¬ basePlace t p <+: o) :
    TagRun.SetApart out (args.listed c excludes dir t) t := by
  have wider {t₁ : Tree} (made : outcome (t.makeAll (above (plainNames out))) = (t₁, true)) : t.Wider t₁ :=
    wider_of_outcome made
  constructor
  · exact fun t₁ o made _ => ((wider made).grows.linkFree free).below o
  · intro t₁ o made leads f hf q found inside
    cases h : t.isFile (args.target c dir) with
    | true =>
      rw [listed_of_isFile h] at hf
      rw [List.mem_singleton.1 (List.mem_filter.1 hf).1] at found
      obtain ⟨q', content, found', file⟩ := isFile_eq.1 h
      cases found.symm.trans found'
      have other : o ≠ q := by
        rintro rfl
        rcases wider made o with same | ⟨none, -⟩
        · cases (leads.dir.symm.trans same).trans file
        · cases none.symm.trans file
      refine (apart t₁ o q made leads found).1 ?_
      rw [basePlace, if_neg (by rw [file]; nofun)]
      rcases List.eq_nil_or_concat' q with rfl | ⟨front, last, rfl⟩
      · exact absurd (List.prefix_nil.1 inside) other
      · rw [List.dropLast_concat]
        exact (List.prefix_concat_iff.1 inside).resolve_left other
    | false =>
      obtain ⟨p, ns, target, there, rfl, way, -⟩ := exists_way_of_mem_listed ht h hf
      have place : q = p ++ ns := by
        obtain ⟨links, -, goes⟩ := (arrives_of_found target).behind (Grows.refl t)
        have leads' := (goes ns way.proper way.ne_nil).1
        exact eq_append_of_found way.proper (free.below p) (leads'.symm.trans found)
      obtain ⟨above, below⟩ := apart t₁ o p made leads target
      rw [basePlace, if_pos there] at above below
      rw [place] at inside
      exact (List.prefix_or_prefix_of_prefix inside (List.prefix_append p ns)).elim above below

/-- A project with two files, one of them in a directory of its own. -/
def twoFiles : Tree :=
  .dir [("p", .dir [("src", .dir [("a.ts", .file "x".toUTF8), ("ui", .dir [("b.tsx", .file "<b/>".toUTF8)])])])]

/-- A project whose output directory holds a link to a file outside of it. -/
def linkedOut : Tree :=
  .dir [("p", .dir [("notes.txt", .file "".toUTF8), ("src", .dir [("a.ts", .file "x".toUTF8)]),
    ("dist", .dir [("a.ts", .link "../notes.txt")])])]

end TagArguments

end InPlace

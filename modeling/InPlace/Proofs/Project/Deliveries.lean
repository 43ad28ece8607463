import InPlace.Project.Tag
import InPlace.Proofs.Files.Storing

/-!
# What becomes of one file

What tagging made of a file is written below the output directory: the directories on the way, the file and its map.
Where the output directory is there and no link stands below it, each of these has its place, and nothing else changes.

Main statements: `outcome_writeReport`, `look?_deliver` and `deliver_again`.
-/

namespace InPlace

open Files Files.Tree Text.Path

variable {t c d : Tree} {o : Place} {ns : List String} {n out : String} {r : Tagging.Report}

namespace Files.Tree

/-- Writes what became of a file below a directory; says whether that went well. -/
def deliver (t : Tree) (o : Place) (ns : List String) (n : String) (r : Tagging.Report) : Tree × Bool :=
  match t.makeBelow o ns with
  | (c, false) => (c, false)
  | (c, true) =>
    match c.storeIn (o ++ ns) n r.code.toUTF8 with
    | (c, false) => (c, false)
    | (c, true) =>
      match r.map with
      | none => (c, true)
      | some map => c.storeIn (o ++ ns) (mapPath n) map.text.toUTF8

/-- Writes the map of a file beside it, if there is one. -/
def storeMap (t : Tree) (p : Place) (n : String) (map : Option Tagging.SourceMap) : Tree × Bool :=
  match map with
  | none => (t, true)
  | some map => t.storeIn p (mapPath n) map.text.toUTF8

/-- First the directories are made, then the file is written, then its map. -/
theorem deliver_eq (t : Tree) (o : Place) (ns : List String) (n : String) (r : Tagging.Report) :
    t.deliver o ns n r = andThen (t.makeBelow o ns) fun c =>
      andThen (c.storeIn (o ++ ns) n r.code.toUTF8) fun d => d.storeMap (o ++ ns) n r.map := by
  unfold deliver
  cases t.makeBelow o ns with
  | mk c made =>
    cases made with
    | false => rfl
    | true =>
      show _ = andThen (c.storeIn (o ++ ns) n r.code.toUTF8) _
      dsimp only
      cases c.storeIn (o ++ ns) n r.code.toUTF8 with
      | mk d stored => cases stored <;> rfl

end Files.Tree

/-- The name of a map is one that an operating system keeps. -/
theorem Files.Proper.mapPath (h : Proper n) : Proper (mapPath n) := by
  have chars : (InPlace.mapPath n).toList = n.toList ++ ['.', 'm', 'a', 'p'] := String.toList_append
  have long : 4 < (InPlace.mapPath n).toList.length := by
    have nonempty : n.toList ≠ [] := fun none => h.nonempty (String.toList_inj.1 none)
    have := List.length_pos_iff.2 nonempty
    rw [chars, List.length_append]
    simp only [List.length_cons, List.length_nil]
    omega
  refine ⟨⟨?_, ?_, ?_⟩, ?_, ?_⟩
  · intro same
    rw [same] at long
    exact absurd long (by decide)
  · rw [chars, List.mem_append, not_or]
    exact ⟨h.slash, by decide⟩
  · intro same
    rw [same] at long
    exact absurd long (by decide)
  · intro same
    rw [same] at long
    exact absurd long (by decide)
  · rw [chars, List.mem_append, not_or]
    exact ⟨h.zero, by decide⟩

theorem mapPath_ne (n : String) : mapPath n ≠ n := by
  intro same
  have length := congrArg String.length same
  rw [mapPath, String.length_append] at length
  have : ".map".length = 4 := by decide
  omega

theorem plain_of_proper {names : List String} (h : ∀ m ∈ names, Proper m) : ∀ m ∈ names, Plain m :=
  fun m hm => (h m hm).toPlain

/-- A map is written beside its file. -/
theorem mapPath_join (out : String) (hn : ∀ m ∈ ns ++ [n], Proper m) :
    mapPath (join out (joined (ns ++ [n]))) = join out (joined (ns ++ [mapPath n])) := by
  have plain := plain_of_proper hn
  have nonempty : joined (ns ++ [n]) ≠ "" := by
    intro empty
    have names := pathNames_joined plain
    rw [empty] at names
    exact absurd names.symm (by rw [show pathNames "" = [] from rfl]; simp)
  show join out (joined (ns ++ [n])) ++ ".map" = _
  rw [← join_append out (isAbsolute_joined plain) nonempty, joined_append]
  rfl

/-- Directories are made above a file that is written. -/
theorem drop_ancestorsOf_join (hb : isAbsolute out) (hn : ∀ m ∈ ns ++ [n], Proper m) :
    (ancestorsOf (join out (joined (ns ++ [n])))).drop 1 = above (plainNames out ++ ns) := by
  have plain := plain_of_proper hn
  refine @ancestorsOf_drop _ n _ (isAbsolute_join hb) ?_
  rw [plainNames, pathNames_join _ (isAbsolute_joined plain), pathNames_joined plain, List.filter_append,
    List.filter_eq_self.2 fun m hm => decide_eq_true (hn m hm).here, List.append_assoc]
  rfl

theorem eq_of_outcome_failed {x : Tree × Option OsError} (h : outcome x = (c, false)) : ∃ e, x = (c, some e) := by
  obtain ⟨t, fault⟩ := x
  cases fault with
  | none => cases h
  | some e => cases h; exact ⟨e, rfl⟩

theorem clean_of_made {os : List String} (hp : ∀ m ∈ os, Plain m) (h : outcome (t.makeAll (above os)) = (c, true)) :
    Clean os := by
  by_contra zero
  rw [makeAll_zero hp zero] at h
  cases h

/-- Where the output directory cannot be made nothing is written. -/
theorem outcome_writeReport_of_failed (hb : isAbsolute out) (hn : ∀ m ∈ ns ++ [n], Proper m)
    (h : outcome (t.makeAll (above (plainNames out))) = (c, false)) :
    outcome (writeReport t r (join out (joined (ns ++ [n])))) = (c, false) := by
  have plain : ∀ m ∈ plainNames out ++ ns, Plain m := fun m hm => (List.mem_append.1 hm).elim plain_of_mem_plainNames
    fun below => (hn m (List.mem_append_left _ below)).toPlain
  obtain ⟨e, failed⟩ : ∃ e, t.makeAll (above (plainNames out ++ ns)) = (c, some e) := by
    refine eq_of_outcome_failed ?_
    -- a zero byte in the output directory fails the same attempt, before anything is made
    by_cases clean : Clean (plainNames out ++ ns)
    · exact makeAll_append_of_failed plain clean h
    · have same : c = t := by
        have zero : ¬ Clean (plainNames out) := fun hc => clean fun m hm => (List.mem_append.1 hm).elim (hc m) fun below =>
          (hn m (List.mem_append_left _ below)).zero
        rw [makeAll_zero (fun m => plain_of_mem_plainNames) zero] at h
        cases h
        rfl
      rw [makeAll_zero plain clean, same]
  unfold writeReport
  rw [drop_ancestorsOf_join hb hn, failed]
  rfl

/-- A report is written in three parts: the directories, the file and its map. -/
theorem outcome_writeReport_eq (t : Tree) (r : Tagging.Report) (file : String) :
    outcome (writeReport t r file) = andThen (outcome (t.makeAll ((ancestorsOf file).drop 1))) fun c =>
      andThen (c.tried (c.writeText file r.code)) fun d => outcome (writeMap d r file) := by
  unfold writeReport
  obtain ⟨c, fault⟩ := t.makeAll ((ancestorsOf file).drop 1)
  cases fault with
  | some e => rfl
  | none =>
    dsimp only [outcome, Option.isNone_none, andThen]
    cases c.writeText file r.code with
    | error e => rfl
    | ok d => rfl

/-- The map of a file is written at its place. -/
theorem outcome_writeMap (leads : d.LeadsTo (plainNames out ++ ns) (o ++ ns))
    (clean : Clean (plainNames out)) (hn : ∀ m ∈ ns ++ [n], Proper m) (free : d.LinkFree (o ++ ns)) :
    outcome (writeMap d r (join out (joined (ns ++ [n])))) = d.storeMap (o ++ ns) n r.map := by
  unfold writeMap storeMap
  cases r.map with
  | none => rfl
  | some map =>
    have hn' : ∀ m ∈ ns ++ [mapPath n], Proper m := by
      intro m hm
      rcases List.mem_append.1 hm with inner | last
      · exact hn m (List.mem_append_left _ inner)
      · rw [List.mem_singleton.1 last]
        exact (hn n (List.mem_append_right _ List.mem_cons_self)).mapPath
    dsimp only
    rw [mapPath_join out hn, ← tried_writeText leads clean hn' (free [mapPath n]) map.text]
    cases d.writeText (join out (joined (ns ++ [mapPath n]))) map.text with
    | ok e => rfl
    | error fault => rfl

/-- What became of a file is written at its places below the output directory. -/
theorem outcome_writeReport (hb : isAbsolute out) (hn : ∀ m ∈ ns ++ [n], Proper m)
    (h : outcome (t.makeAll (above (plainNames out))) = (c, true)) (leads : c.LeadsTo (plainNames out) o)
    (free : c.LinkFree o) : outcome (writeReport t r (join out (joined (ns ++ [n])))) = c.deliver o ns n r := by
  have plain : ∀ m ∈ plainNames out, Plain m := fun m => plain_of_mem_plainNames
  have clean := clean_of_made plain h
  have inner : ∀ m ∈ ns, Proper m := fun m hm => hn m (List.mem_append_left _ hm)
  rw [outcome_writeReport_eq, drop_ancestorsOf_join hb hn, makeAll_append h leads free plain clean inner, deliver_eq]
  refine andThen_congr fun made => ?_
  have inside := leadsTo_makeBelow leads inner (Prod.ext rfl made)
  have free' := ((grows_makeBelow leads.dir ns).linkFree free).below ns
  rw [tried_writeText inside clean hn (free' [n]) r.code]
  refine andThen_congr fun _ => ?_
  have grows := grows_storeIn inside.dir n r.code.toUTF8
  exact outcome_writeMap (grows.leadsTo inside) clean hn (grows.linkFree free')

/-! ## What changes -/

/-- What changes when a file is written: directories on the way are new, and the file and its map are written. -/
inductive Written (t c : Tree) (o : Place) (ns : List String) (n : String) (r : Tagging.Report) (q : Place) : Prop
  | same (h : c.look? q = t.look? q)
  | made (ks : List String) (nonempty : ks ≠ []) (way : ks <+: ns) (place : q = o ++ ks) (before : t.look? q = none)
      (after : c.look? q = some .dir)
  | code (place : q = o ++ (ns ++ [n])) (before : t.look? q = none ∨ ∃ old, t.look? q = some (.file old))
      (after : c.look? q = some (.file r.code.toUTF8))
  | map {m : Tagging.SourceMap} (hm : r.map = some m) (place : q = o ++ (ns ++ [mapPath n]))
      (before : t.look? q = none ∨ ∃ old, t.look? q = some (.file old)) (after : c.look? q = some (.file m.text.toUTF8))

/-- Where a map is written, and what that leaves of the rest. -/
theorem look?_storeMap {p : Place} (there : t.look? p = some .dir) (n : String) (map : Option Tagging.SourceMap)
    (q : Place) : (t.storeMap p n map).1.look? q = t.look? q ∨
      ∃ m, map = some m ∧ q = p ++ [mapPath n] ∧ (t.look? q = none ∨ ∃ old, t.look? q = some (.file old)) ∧
        (t.storeMap p n map).1.look? q = some (.file m.text.toUTF8) := by
  cases map with
  | none => exact .inl rfl
  | some m => exact (look?_storeIn_cases there (mapPath n) m.text.toUTF8 q).imp_right fun written => ⟨m, rfl, written⟩

/-- The map of a file is at another place than the file. -/
theorem snoc_mapPath_ne (p : Place) (n : String) : p ++ [mapPath n] ≠ p ++ [n] :=
  fun same => mapPath_ne n (List.singleton_inj.1 (List.append_cancel_left same))

/-- What a delivery has changed are the directories above an output, the output and its map. -/
theorem look?_deliver (there : t.look? o = some .dir) (ns : List String) (n : String) (r : Tagging.Report) (q : Place) :
    Written t (t.deliver o ns n r).1 o ns n r q := by
  have dirs := look?_makeBelow there ns q
  have before (h : (t.makeBelow o ns).1.look? q = none ∨ ∃ old, (t.makeBelow o ns).1.look? q = some (.file old)) :
      t.look? q = none ∨ ∃ old, t.look? q = some (.file old) := by
    rcases dirs with same | ⟨-, made, -⟩
    · rwa [same] at h
    · rw [made] at h
      rcases h with h | ⟨old, h⟩ <;> cases h
  have way {c : Tree} (h : c.look? q = (t.makeBelow o ns).1.look? q) : Written t c o ns n r q := by
    rcases dirs with same | ⟨nothing, made, ks, hk, way, place⟩
    · exact .same (h.trans same)
    · exact .made ks hk way place nothing (h.trans made)
  rw [deliver_eq]
  refine fst_andThen (P := fun c => Written t c o ns n r q) (way rfl) fun made => ?_
  have inside := look?_of_makeBelow there (Prod.ext rfl made)
  have file {c : Tree} (h : c.look? q = ((t.makeBelow o ns).1.storeIn (o ++ ns) n r.code.toUTF8).1.look? q) :
      Written t c o ns n r q := by
    rcases look?_storeIn_cases inside n r.code.toUTF8 q with same | ⟨place, old, stored⟩
    · exact way (h.trans same)
    · exact .code (place.trans (List.append_assoc o ns [n])) (before old) (h.trans stored)
  refine fst_andThen (P := fun c => Written t c o ns n r q) (file rfl) fun stored => ?_
  have inside' := (grows_storeIn inside n r.code.toUTF8).dir _ inside
  rcases look?_storeMap inside' n r.map q with same | ⟨m, hm, place, old, after⟩
  · exact file same
  · refine .map hm (place.trans (List.append_assoc o ns _)) (before ?_) after
    rwa [look?_storeIn inside stored, if_neg (place ▸ snoc_mapPath_ne (o ++ ns) n)] at old

/-- There is room for a file below a directory: nothing stands in the way of the directories or of the file. -/
structure Room (t : Tree) (o : Place) (ns : List String) (n : String) : Prop where
  short : ∀ m ∈ ns ++ [n], ¬ maxNameLength < m.utf8ByteSize
  way : ∀ ks, ks ≠ [] → ks <+: ns → t.look? (o ++ ks) = none ∨ t.look? (o ++ ks) = some .dir
  place : t.look? (o ++ (ns ++ [n])) = none ∨ ∃ old, t.look? (o ++ (ns ++ [n])) = some (.file old)

/-- A file can be stored exactly if there is room for it. -/
theorem room_iff (there : t.look? o = some .dir) (content : ByteArray) : Room t o ns n ↔
    (t.makeBelow o ns).2 = true ∧ ((t.makeBelow o ns).1.storeIn (o ++ ns) n content).2 = true := by
  have same : (t.makeBelow o ns).1.look? (o ++ ns ++ [n]) = t.look? (o ++ ns ++ [n]) := by
    rcases look?_makeBelow there ns (o ++ ns ++ [n]) with same | ⟨-, -, ks, -, way, place⟩
    · exact same
    · rw [List.append_assoc] at place
      have longer := congrArg List.length (List.append_cancel_left place)
      rw [List.length_append, List.length_singleton] at longer
      have := way.length_le
      omega
  rw [makeBelow_snd_iff there, storeIn_snd_iff, same, List.append_assoc]
  constructor
  · intro h
    exact ⟨⟨fun m hm => h.short m (List.mem_append_left _ hm), h.way⟩,
      h.short n (List.mem_append_right _ List.mem_cons_self), h.place⟩
  · rintro ⟨⟨shorts, way⟩, short, place⟩
    exact ⟨fun m hm => (List.mem_append.1 hm).elim (shorts m) fun one => List.mem_singleton.1 one ▸ short, way, place⟩

/-- Where there is room the file is written. -/
theorem look?_deliver_code (there : t.look? o = some .dir) (room : Room t o ns n) :
    (t.deliver o ns n r).1.look? (o ++ (ns ++ [n])) = some (.file r.code.toUTF8) := by
  obtain ⟨made, stored⟩ := (room_iff there r.code.toUTF8).1 room
  have inside := look?_of_makeBelow there (Prod.ext rfl made)
  have inside' := (grows_storeIn inside n r.code.toUTF8).dir _ inside
  rw [deliver_eq, andThen_of_done made, andThen_of_done stored, ← List.append_assoc]
  rcases look?_storeMap inside' n r.map (o ++ ns ++ [n]) with same | ⟨-, -, place, -⟩
  · rw [same, look?_storeIn inside stored, if_pos rfl]
  · exact absurd place.symm (snoc_mapPath_ne (o ++ ns) n)

/-- All that a file needs is written exactly if there is room for the file, and for its map if it has one. -/
theorem deliver_snd_iff (there : t.look? o = some .dir) : (t.deliver o ns n r).2 = true ↔
    Room t o ns n ∧ ∀ m, r.map = some m → Room t o ns (mapPath n) := by
  rw [deliver_eq, snd_andThen]
  by_cases room : Room t o ns n
  · obtain ⟨made, stored⟩ := (room_iff there r.code.toUTF8).1 room
    have inside := look?_of_makeBelow there (Prod.ext rfl made)
    rw [snd_andThen, and_iff_right made, and_iff_right stored, and_iff_right room]
    cases r.map with
    | none => exact iff_of_true rfl nofun
    | some m =>
      -- the file has another place, so there is as much room for the map as there was
      have other : ((t.makeBelow o ns).1.storeIn (o ++ ns) n r.code.toUTF8).1.look? (o ++ ns ++ [mapPath n]) =
          (t.makeBelow o ns).1.look? (o ++ ns ++ [mapPath n]) := by
        rw [look?_storeIn inside stored, if_neg (snoc_mapPath_ne _ n)]
      have map : Room t o ns (mapPath n) ↔ ((t.makeBelow o ns).1.storeIn (o ++ ns) (mapPath n) m.text.toUTF8).2 = true :=
        (room_iff there m.text.toUTF8).trans (and_iff_right made)
      rw [storeMap, storeIn_snd_iff, other, ← storeIn_snd_iff (mapPath n) m.text.toUTF8, ← map]
      exact ⟨fun h _ _ => h, fun h => h m rfl⟩
  · refine iff_of_false (fun h => ?_) fun h => room h.1
    rw [snd_andThen] at h
    exact room ((room_iff there r.code.toUTF8).2 ⟨h.1, h.2.1⟩)

/-! ## Once more -/

theorem repeatable_storeMap (p : Place) (n : String) (map : Option Tagging.SourceMap) :
    Repeatable p fun t => t.storeMap p n map := by
  cases map with
  | none => exact ⟨fun t _ => .refl t, fun t d _ _ => ⟨rfl, .refl t d⟩⟩
  | some m => exact repeatable_storeIn p (mapPath n) m.text.toUTF8

/-- A delivery that is repeated changes nothing. -/
theorem repeatable_deliver (o : Place) (ns : List String) (n : String) (r : Tagging.Report) :
    Repeatable o fun t => t.deliver o ns n r := by
  have file : Repeatable (o ++ ns) fun c =>
      andThen (c.storeIn (o ++ ns) n r.code.toUTF8) fun d => d.storeMap (o ++ ns) n r.map :=
    (repeatable_storeIn _ n _).andThen (repeatable_storeMap _ n r.map) fun t there _ =>
      (grows_storeIn there n r.code.toUTF8).dir _ there
  simp only [deliver_eq]
  exact (repeatable_makeBelow o ns).andThen file fun t there made => look?_of_makeBelow there (Prod.ext rfl made)

theorem grows_deliver (there : t.look? o = some .dir) (ns : List String) (n : String) (r : Tagging.Report) :
    t.Grows (t.deliver o ns n r).1 :=
  (repeatable_deliver o ns n r).grows t there

/-- What was written once, or could not be, is written again or cannot. -/
theorem deliver_again (there : t.look? o = some .dir) (hg : (t.deliver o ns n r).1.Grows d) :
    (d.deliver o ns n r).2 = (t.deliver o ns n r).2 ∧ Again t (t.deliver o ns n r).1 d (d.deliver o ns n r).1 :=
  (repeatable_deliver o ns n r).again t d there hg

end InPlace

import InPlace.Proofs.Files.Making

/-!
# Files below a directory

Where no link stands below a directory, the way to a place below it is the list of names. Directories are made and files
written there place by place, and whether that goes well depends on the kind of what is at the places.

Main statements: `makeAll_append` and `tried_writeText`.
-/

namespace InPlace.Files.Tree

open Text.Path (isAbsolute join)

variable {t c d : Tree} {p q : Place} {n : String} {os ns : List String} {content : ByteArray}

/-- No link stands below a place. -/
def LinkFree (t : Tree) (p : Place) : Prop :=
  ∀ q target, t.look? (p ++ q) ≠ some (.link target)

theorem LinkFree.below (h : t.LinkFree p) (q : Place) : t.LinkFree (p ++ q) := by
  intro r target
  rw [List.append_assoc]
  exact h (q ++ r) target

theorem Grows.linkFree (hg : t.Grows c) (h : t.LinkFree p) : c.LinkFree p :=
  fun q target hl => h q target (hg.links _ target hl)

mutual

/-- Whether there is no link in a tree. -/
def hasNoLink : Tree → Bool
  | .file _ => true
  | .link _ => false
  | .dir es => haveNoLink es

/-- Whether there is no link among entries or below them. -/
def haveNoLink : List (String × Tree) → Bool
  | [] => true
  | (_, t) :: es => t.hasNoLink && haveNoLink es

end

theorem hasNoLink_of_lookup {es : List (String × Tree)} {u : Tree} (h : haveNoLink es = true) (hu : lookup n es = some u) :
    u.hasNoLink = true := by
  induction es with
  | nil => cases hu
  | cons e es ih =>
    rw [haveNoLink, Bool.and_eq_true] at h
    rw [lookup] at hu
    split at hu
    · cases hu
      exact h.1
    · exact ih h.2 hu

theorem linkFree_of_hasNoLink (h : t.hasNoLink = true) : t.LinkFree [] := by
  intro q target
  show t.look? q ≠ _
  induction q generalizing t with
  | nil =>
    cases t with
    | link target => cases h
    | file content => nofun
    | dir es => nofun
  | cons n q ih =>
    cases t with
    | link target => cases h
    | file content => nofun
    | dir es =>
      show ((lookup n es).bind fun u => u.get? q).map look ≠ _
      cases hu : lookup n es with
      | none => nofun
      | some u => exact ih (hasNoLink_of_lookup h hu)

/-! ## Directories -/

/-- Makes a directory at a place, or keeps the one that is there; says whether that went well. -/
def makeIn (t : Tree) (p : Place) (n : String) : Tree × Bool :=
  if maxNameLength < n.utf8ByteSize then (t, false)
  else
    match t.look? (p ++ [n]) with
    | none => (t.put (p ++ [n]) (.dir []), true)
    | some .dir => (t, true)
    | some _ => (t, false)

/-- Makes one directory in another. -/
def makeBelow (t : Tree) (p : Place) : List String → Tree × Bool
  | [] => (t, true)
  | n :: ns =>
    match t.makeIn p n with
    | (c, true) => c.makeBelow (p ++ [n]) ns
    | (c, false) => (c, false)

/-- What is found in a directory, if it is no link. -/
theorem locate_snoc (h : t.LeadsTo ns p) (hn : Proper n) (free : ∀ target, t.look? (p ++ [n]) ≠ some (.link target)) :
    t.locate maxLinks [] (ns ++ [n]) =
      if maxNameLength < n.utf8ByteSize then .error .nameTooLong
      else if t.look? (p ++ [n]) = none then .ok (.absent p n)
      else .ok (.found (p ++ [n])) := by
  obtain ⟨links, -, goes⟩ := locate_append h.found
  rw [goes [n], locate_cons, if_pos h.dir, if_neg hn.here, if_neg hn.up]
  split
  · rfl
  · split
    · rename_i nothing
      rw [if_pos nothing]
      rfl
    · rename_i target hl
      exact absurd hl (free target)
    · rename_i l hl other
      rw [if_neg (by rw [other]; exact Option.some_ne_none _), locate_nil]

theorem LeadsTo.snoc (h : t.LeadsTo ns p) (hn : Proper n) (short : ¬ maxNameLength < n.utf8ByteSize)
    (there : t.look? (p ++ [n]) = some .dir) : t.LeadsTo (ns ++ [n]) (p ++ [n]) :=
  h.put hn.here hn.up short (.refl t) there

/-- Directories below a directory are led to by their names. -/
theorem LeadsTo.below (h : t.LeadsTo os p) (hn : ∀ m ∈ ns, Proper m) (short : ∀ m ∈ ns, ¬ maxNameLength < m.utf8ByteSize)
    (there : t.look? (p ++ ns) = some .dir) : t.LeadsTo (os ++ ns) (p ++ ns) := by
  induction ns generalizing os p with
  | nil => rwa [List.append_nil, List.append_nil]
  | cons n ns ih =>
    rw [List.append_cons p] at there
    have first : t.look? (p ++ [n]) = some .dir := by
      by_cases last : ns = []
      · rwa [last, List.append_nil] at there
      · exact look?_of_append (by rw [there]; exact Option.some_ne_none _) last
    rw [List.append_cons, List.append_cons p]
    exact ih (h.snoc (hn n List.mem_cons_self) (short n List.mem_cons_self) first)
      (fun m hm => hn m (List.mem_cons_of_mem _ hm)) (fun m hm => short m (List.mem_cons_of_mem _ hm)) there

/-- A directory is made or kept at its place. -/
theorem tried_makeDirOrKeep (h : t.LeadsTo ns p) (hp : ∀ m ∈ ns, Plain m) (hc : Clean ns) (hn : Proper n)
    (free : ∀ target, t.look? (p ++ [n]) ≠ some (.link target)) :
    t.tried (t.makeDirOrKeep (fromTop (ns ++ [n]))) = t.makeIn p n := by
  have hp' : ∀ m ∈ ns ++ [n], Plain m := fun m hm => (List.mem_append.1 hm).elim (hp m) fun one =>
    List.mem_singleton.1 one ▸ hn.toPlain
  have hc' : Clean (ns ++ [n]) := fun m hm => (List.mem_append.1 hm).elim (hc m) fun one =>
    List.mem_singleton.1 one ▸ hn.zero
  have last := locate_snoc h hn free
  have entry := makeEntry_eq t ns n
  rw [h.found] at entry
  dsimp only at entry
  rw [if_pos h.dir, if_neg (not_or.2 ⟨hn.here, hn.up⟩)] at entry
  unfold makeDirOrKeep makeIn
  rw [makeDir_fromTop hp' hc', entry]
  by_cases long : maxNameLength < n.utf8ByteSize
  · have missing : t.isDir (fromTop (ns ++ [n])) ≠ true := fun there => by
      obtain ⟨q, leads⟩ := (isDir_fromTop hp' hc').1 there
      rw [if_pos long] at last
      cases last.symm.trans leads.found
    rw [if_pos long, if_pos long]
    dsimp only
    rw [if_neg missing]
    rfl
  · rw [if_neg long] at last
    rw [if_neg long, if_neg long]
    cases hl : t.look? (p ++ [n]) with
    | none => rfl
    | some l =>
      rw [if_neg (Option.some_ne_none _)]
      dsimp only
      cases l with
      | dir =>
        rw [if_pos ((isDir_fromTop hp' hc').2 ⟨_, h.snoc hn long hl⟩)]
        rfl
      | link target => exact absurd hl (free target)
      | file content =>
        have missing : t.isDir (fromTop (ns ++ [n])) ≠ true := fun there => by
          obtain ⟨q, leads⟩ := (isDir_fromTop hp' hc').1 there
          rw [hl, if_neg (Option.some_ne_none _)] at last
          have same := last.symm.trans leads.found
          cases same
          cases hl.symm.trans leads.dir
        rw [if_neg missing]
        rfl

/-- Where a directory is made or kept, and what that leaves of the rest. -/
theorem look?_makeIn (there : t.look? p = some .dir) (n : String) (q : Place) :
    (t.makeIn p n).1.look? q = t.look? q ∨
      t.look? q = none ∧ (t.makeIn p n).1.look? q = some .dir ∧ q = p ++ [n] := by
  unfold makeIn
  split
  · exact .inl rfl
  · split
    · rename_i nothing
      rw [look?_putDir there nothing]
      split
      · rename_i same
        exact .inr ⟨same ▸ nothing, rfl, same⟩
      · exact .inl rfl
    · exact .inl rfl
    · exact .inl rfl

theorem grows_makeIn (there : t.look? p = some .dir) (n : String) : t.Grows (t.makeIn p n).1 :=
  .of_looks fun q => (look?_makeIn there n q).imp_right fun made => .inl ⟨made.1, by rw [made.2.1]; nofun⟩

/-- A directory can be made where nothing is or a directory, if its name is short enough. -/
theorem makeIn_snd_iff (n : String) : (t.makeIn p n).2 = true ↔
    ¬ maxNameLength < n.utf8ByteSize ∧ (t.look? (p ++ [n]) = none ∨ t.look? (p ++ [n]) = some .dir) := by
  unfold makeIn
  split
  · rename_i long
    exact ⟨nofun, fun h => absurd long h.1⟩
  · rename_i short
    split
    · rename_i nothing
      exact ⟨fun _ => ⟨short, .inl nothing⟩, fun _ => rfl⟩
    · rename_i dir
      exact ⟨fun _ => ⟨short, .inr dir⟩, fun _ => rfl⟩
    · rename_i l other hl
      refine ⟨nofun, fun h => ?_⟩
      rcases h.2 with none | dir
      · rw [hl] at none
        cases none
      · rw [hl] at dir
        exact absurd (Option.some.inj dir) other

/-- A directory that was made is there. -/
theorem look?_of_makeIn (there : t.look? p = some .dir) (h : t.makeIn p n = (c, true)) :
    c.look? (p ++ [n]) = some .dir := by
  obtain ⟨-, look⟩ := (makeIn_snd_iff (t := t) (p := p) n).1 (by rw [h])
  rcases look?_makeIn there n (p ++ [n]) with same | ⟨-, made, -⟩
  · rw [h] at same
    rcases look with none | dir
    · unfold makeIn at h
      split at h
      · cases h
      · split at h
        · cases h
          rw [look?_putDir there none, if_pos rfl]
        · rename_i dir
          rw [none] at dir
          cases dir
        · cases h
    · exact same.trans dir
  · rwa [h] at made

theorem makeIn_failed (h : t.makeIn p n = (c, false)) : c = t := by
  unfold makeIn at h
  split at h
  · cases h
    rfl
  · split at h
    · cases h
    · cases h
    · cases h
      rfl

/-- Directories below a directory are made from the top. -/
theorem makeAll_append (ht : outcome (t.makeAll (above os)) = (c, true)) (h : c.LeadsTo os p) (free : c.LinkFree p)
    (hp : ∀ m ∈ os, Plain m) (hc : Clean os) (hn : ∀ m ∈ ns, Proper m) :
    outcome (t.makeAll (above (os ++ ns))) = c.makeBelow p ns := by
  induction ns generalizing os c p with
  | nil => rwa [List.append_nil]
  | cons n ns ih =>
    have first := hn n List.mem_cons_self
    have rest : ∀ m ∈ ns, Proper m := fun m hm => hn m (List.mem_cons_of_mem _ hm)
    have hp' : ∀ m ∈ os ++ [n], Plain m := fun m hm => (List.mem_append.1 hm).elim (hp m) fun one =>
      List.mem_singleton.1 one ▸ first.toPlain
    have hc' : Clean (os ++ [n]) := fun m hm => (List.mem_append.1 hm).elim (hc m) fun one =>
      List.mem_singleton.1 one ▸ first.zero
    have made : outcome (t.makeAll (above (os ++ [n]))) = c.makeIn p n := by
      rw [makeAll_above_snoc t hp' hc', ht]
      exact tried_makeDirOrKeep h hp hc first (free [n])
    rw [List.append_cons]
    unfold makeBelow
    cases hm : c.makeIn p n with
    | mk d went =>
      rw [hm] at made
      have grows : c.Grows d := by
        have := grows_makeIn h.dir n
        rwa [hm] at this
      cases went with
      | true =>
        have short := ((makeIn_snd_iff (t := c) (p := p) n).1 (by rw [hm])).1
        have leads := h.put first.here first.up short grows (look?_of_makeIn h.dir hm)
        exact ih made leads ((grows.linkFree free).below [n]) hp' hc' rest
      | false =>
        refine makeAll_append_of_failed ?_ ?_ made
        · exact fun m hm => (List.mem_append.1 hm).elim (hp' m) fun one => (rest m one).toPlain
        · exact fun m hm => (List.mem_append.1 hm).elim (hc' m) fun one => (rest m one).zero

/-- Only directories are made, and only on the way. -/
theorem look?_makeBelow (there : t.look? p = some .dir) (ns : List String) (q : Place) :
    (t.makeBelow p ns).1.look? q = t.look? q ∨ t.look? q = none ∧ (t.makeBelow p ns).1.look? q = some .dir ∧
      ∃ ks, ks ≠ [] ∧ ks <+: ns ∧ q = p ++ ks := by
  induction ns generalizing t p with
  | nil => exact .inl rfl
  | cons n ns ih =>
    have first := look?_makeIn there n q
    unfold makeBelow
    cases hm : t.makeIn p n with
    | mk d went =>
      rw [hm] at first
      have here : d.look? q = t.look? q ∨ t.look? q = none ∧ d.look? q = some .dir ∧
          ∃ ks, ks ≠ [] ∧ ks <+: n :: ns ∧ q = p ++ ks :=
        first.imp_right fun ⟨nothing, made, same⟩ =>
          ⟨nothing, made, [n], List.cons_ne_nil _ _, List.cons_prefix_cons.2 ⟨rfl, List.nil_prefix⟩, same⟩
      cases went with
      | false => exact here
      | true =>
        rcases ih (look?_of_makeIn there hm) with same | ⟨nothing, made, ks, -, prefix', rfl⟩
        · dsimp only
          rw [same]
          exact here
        · have missing : t.look? (p ++ [n] ++ ks) = none := by
            rcases first with same | ⟨nothing', -⟩
            · exact same.symm.trans nothing
            · exact nothing'
          refine .inr ⟨missing, made, n :: ks, List.cons_ne_nil _ _, List.cons_prefix_cons.2 ⟨rfl, prefix'⟩, ?_⟩
          rw [List.append_assoc]
          rfl

theorem grows_makeBelow (there : t.look? p = some .dir) (ns : List String) : t.Grows (t.makeBelow p ns).1 :=
  .of_looks fun q => (look?_makeBelow there ns q).imp_right fun made => .inl ⟨made.1, by rw [made.2.1]; nofun⟩

/-- The last of the directories that were made is there. -/
theorem look?_of_makeBelow (there : t.look? p = some .dir) (h : t.makeBelow p ns = (c, true)) :
    c.look? (p ++ ns) = some .dir := by
  induction ns generalizing t p with
  | nil =>
    cases h
    rwa [List.append_nil]
  | cons n ns ih =>
    unfold makeBelow at h
    cases hm : t.makeIn p n with
    | mk d went =>
      rw [hm] at h
      cases went with
      | false => cases h
      | true =>
        rw [List.append_cons]
        exact ih (look?_of_makeIn there hm) h

/-- Directories that could be made are led to. -/
theorem leadsTo_makeBelow (h : t.LeadsTo os p) (hn : ∀ m ∈ ns, Proper m) (hm : t.makeBelow p ns = (c, true)) :
    c.LeadsTo (os ++ ns) (p ++ ns) := by
  induction ns generalizing t os p with
  | nil =>
    cases hm
    rwa [List.append_nil, List.append_nil]
  | cons n ns ih =>
    have first := hn n List.mem_cons_self
    unfold makeBelow at hm
    cases hd : t.makeIn p n with
    | mk d went =>
      rw [hd] at hm
      cases went with
      | false => cases hm
      | true =>
        have grows : t.Grows d := by
          have := grows_makeIn h.dir n
          rwa [hd] at this
        have short := ((makeIn_snd_iff (t := t) (p := p) n).1 (by rw [hd])).1
        rw [List.append_cons, List.append_cons p]
        exact ih (h.put first.here first.up short grows (look?_of_makeIn h.dir hd))
          (fun m hm => hn m (List.mem_cons_of_mem _ hm)) hm

/-- Directories can be made where nothing is in the way and no name is too long. -/
theorem makeBelow_snd_iff (there : t.look? p = some .dir) (ns : List String) : (t.makeBelow p ns).2 = true ↔
    (∀ n ∈ ns, ¬ maxNameLength < n.utf8ByteSize) ∧
      ∀ ks, ks ≠ [] → ks <+: ns → t.look? (p ++ ks) = none ∨ t.look? (p ++ ks) = some .dir := by
  induction ns generalizing t p with
  | nil => exact ⟨fun _ => ⟨nofun, fun ks hk hp => absurd (List.prefix_nil.1 hp) hk⟩, fun _ => rfl⟩
  | cons n ns ih =>
    have first := makeIn_snd_iff (t := t) (p := p) n
    have looks := look?_makeIn there n
    unfold makeBelow
    cases hd : t.makeIn p n with
    | mk d went =>
      rw [hd] at first looks
      cases went with
      | false =>
        refine ⟨nofun, fun ⟨short, free⟩ => ?_⟩
        exact absurd (first.2 ⟨short n List.mem_cons_self,
          free [n] (List.cons_ne_nil _ _) (List.cons_prefix_cons.2 ⟨rfl, List.nil_prefix⟩)⟩) Bool.false_ne_true
      | true =>
        obtain ⟨short, here⟩ := first.1 rfl
        have same (ks : List String) (hk : ks ≠ []) : d.look? (p ++ [n] ++ ks) = t.look? (p ++ n :: ks) := by
          rw [← List.append_cons]
          rcases looks (p ++ n :: ks) with same | ⟨-, -, at'⟩
          · exact same
          · exact absurd (List.cons.inj (List.append_cancel_left at')).2 hk
        dsimp only
        rw [ih (look?_of_makeIn there hd)]
        constructor
        · rintro ⟨shorts, free⟩
          refine ⟨fun m hm => (List.mem_cons.1 hm).elim (fun one => one ▸ short) (shorts m), fun ks hk hp => ?_⟩
          obtain ⟨k, ks, rfl⟩ := List.exists_cons_of_ne_nil hk
          obtain ⟨rfl, rest⟩ := List.cons_prefix_cons.1 hp
          by_cases none : ks = []
          · exact none ▸ here
          · rw [← same ks none]
            exact free ks none rest
        · rintro ⟨shorts, free⟩
          refine ⟨fun m hm => shorts m (List.mem_cons_of_mem _ hm), fun ks hk hp => ?_⟩
          rw [same ks hk]
          exact free (n :: ks) (List.cons_ne_nil _ _) (List.cons_prefix_cons.2 ⟨rfl, hp⟩)

/-! ## Files -/

/-- Puts a file at a place, in place of one that is there; says whether that went well. -/
def storeIn (t : Tree) (p : Place) (n : String) (content : ByteArray) : Tree × Bool :=
  if maxNameLength < n.utf8ByteSize then (t, false)
  else
    match t.look? (p ++ [n]) with
    | none => (t.put (p ++ [n]) (.file content), true)
    | some (.file _) => (t.put (p ++ [n]) (.file content), true)
    | some _ => (t, false)

/-- A file can be written where nothing is or a file, if its name is short enough. -/
theorem storeIn_snd_iff (n : String) (content : ByteArray) : (t.storeIn p n content).2 = true ↔
    ¬ maxNameLength < n.utf8ByteSize ∧
      (t.look? (p ++ [n]) = none ∨ ∃ old, t.look? (p ++ [n]) = some (.file old)) := by
  unfold storeIn
  split
  · rename_i long
    exact ⟨nofun, fun h => absurd long h.1⟩
  · rename_i short
    split
    · rename_i nothing
      exact ⟨fun _ => ⟨short, .inl nothing⟩, fun _ => rfl⟩
    · rename_i old hl
      exact ⟨fun _ => ⟨short, .inr ⟨old, hl⟩⟩, fun _ => rfl⟩
    · rename_i l other hl
      refine ⟨nofun, fun h => ?_⟩
      rcases h.2 with none | ⟨old, file⟩
      · rw [hl] at none
        cases none
      · rw [hl] at file
        exact absurd (Option.some.inj file) (other old)

/-- A file is stored as it should be or not at all. -/
theorem storeIn_eq (n : String) (content : ByteArray) : t.storeIn p n content =
    if (t.storeIn p n content).2 then (t.put (p ++ [n]) (.file content), true) else (t, false) := by
  unfold storeIn
  split
  · rfl
  · split <;> rfl

theorem look?_storeIn (there : t.look? p = some .dir) (h : (t.storeIn p n content).2 = true) (q : Place) :
    (t.storeIn p n content).1.look? q = if q = p ++ [n] then some (.file content) else t.look? q := by
  rw [storeIn_eq, if_pos h]
  exact look?_putFile there ((storeIn_snd_iff n content).1 h).2 content q

/-- Where a file is stored, and what that leaves of the rest. -/
theorem look?_storeIn_cases (there : t.look? p = some .dir) (n : String) (content : ByteArray) (q : Place) :
    (t.storeIn p n content).1.look? q = t.look? q ∨
      q = p ++ [n] ∧ (t.look? q = none ∨ ∃ old, t.look? q = some (.file old)) ∧
        (t.storeIn p n content).1.look? q = some (.file content) := by
  cases stored : (t.storeIn p n content).2 with
  | false =>
    rw [storeIn_eq, stored]
    exact .inl rfl
  | true =>
    rw [look?_storeIn there stored]
    split
    · rename_i place
      exact .inr ⟨place, place ▸ ((storeIn_snd_iff n content).1 stored).2, rfl⟩
    · exact .inl rfl

theorem storeIn_failed (h : (t.storeIn p n content).2 = false) : (t.storeIn p n content).1 = t := by
  rw [storeIn_eq, h]
  rfl

/-- A tree grows when a file is written in it. -/
theorem grows_storeIn (there : t.look? p = some .dir) (n : String) (content : ByteArray) :
    t.Grows (t.storeIn p n content).1 := by
  cases h : (t.storeIn p n content).2 with
  | false =>
    rw [storeIn_failed h]
    exact .refl t
  | true =>
    rw [storeIn_eq, if_pos h]
    exact .putFile there ((storeIn_snd_iff n content).1 h).2 content

/-- A path to names below another path. -/
theorem locatePath_join (t : Tree) {out : String} (hc : Clean (pathNames out)) (hn : ∀ m ∈ ns ++ [n], Proper m) :
    t.locatePath (join out (joined (ns ++ [n]))) = t.locate maxLinks [] (pathNames out ++ (ns ++ [n])) := by
  have plain : ∀ m ∈ ns ++ [n], Plain m := fun m hm => (hn m hm).toPlain
  have names : pathNames (join out (joined (ns ++ [n]))) = pathNames out ++ (ns ++ [n]) := by
    rw [pathNames_join _ (isAbsolute_joined plain), pathNames_joined plain]
  have zero : ¬ (join out (joined (ns ++ [n]))).toList.contains '\x00' = true := by
    rw [contains_zero, names, not_not]
    exact fun m hm => (List.mem_append.1 hm).elim (hc m) fun below => (hn m below).zero
  obtain ⟨front, whole⟩ := exists_join_eq out plain
  have last := plain n (List.mem_append_right _ List.mem_cons_self)
  have given : (join out (joined (ns ++ [n]))).isEmpty = false := by
    rw [whole, Bool.eq_false_iff]
    exact fun empty => last.nonempty (String.append_eq_empty_iff.1 (String.isEmpty_iff.1 empty)).2
  have slash : Text.Path.endsInSlash (join out (joined (ns ++ [n]))) = false := by
    rw [whole]
    exact last.endsInSlash_eq front
  rw [locatePath, if_neg zero, given, pathSteps, slash, names]
  rfl

/-- The path to a file in a directory. -/
theorem locatePath_file {out : String} (h : t.LeadsTo (plainNames out ++ ns) p)
    (hc : Clean (plainNames out)) (hn : ∀ m ∈ ns ++ [n], Proper m)
    (free : ∀ target, t.look? (p ++ [n]) ≠ some (.link target)) :
    t.locatePath (join out (joined (ns ++ [n]))) =
      if maxNameLength < n.utf8ByteSize then .error .nameTooLong
      else if t.look? (p ++ [n]) = none then .ok (.absent p n)
      else .ok (.found (p ++ [n])) := by
  rw [locatePath_join t (clean_pathNames.2 hc) hn, ← List.append_assoc]
  exact locate_snoc h.dotted (hn n (List.mem_append_right _ List.mem_cons_self)) free

/-- A file is written at its place. -/
theorem tried_writeText {out : String} (h : t.LeadsTo (plainNames out ++ ns) p)
    (hc : Clean (plainNames out)) (hn : ∀ m ∈ ns ++ [n], Proper m)
    (free : ∀ target, t.look? (p ++ [n]) ≠ some (.link target)) (text : String) :
    t.tried (t.writeText (join out (joined (ns ++ [n]))) text) = t.storeIn p n text.toUTF8 := by
  unfold writeText storeIn
  rw [locatePath_file h hc hn free]
  by_cases long : maxNameLength < n.utf8ByteSize
  · rw [if_pos long, if_pos long]
    rfl
  · rw [if_neg long, if_neg long]
    cases hl : t.get? (p ++ [n]) with
    | none =>
      have nothing : t.look? (p ++ [n]) = none := by rw [look?, hl]; rfl
      rw [if_pos nothing, nothing]
      rfl
    | some u =>
      have there : t.look? (p ++ [n]) = some u.look := by rw [look?, hl]; rfl
      rw [there, if_neg (Option.some_ne_none _)]
      dsimp only
      rw [hl]
      cases u with
      | file old => rfl
      | link target => exact absurd there (free target)
      | dir es => rfl

/-! ## Once more -/

/-- Something is done to `t`, which gives `c`, and is done again to `d`, which gives `e`. The second time nothing is new,
and what it changes it makes what it was made the first time. -/
structure Again (t c d e : Tree) : Prop where
  grows : e.Grows d
  looks : ∀ q, e.look? q = c.look? q ∨ e.look? q = d.look? q ∧ c.look? q = t.look? q

theorem Again.refl (t d : Tree) : Again t t d d :=
  ⟨.refl d, fun _ => .inr ⟨rfl, rfl⟩⟩

theorem Again.trans {u e f : Tree} (h : Again t c d e) (h' : Again c u e f) : Again t u d f where
  grows := h'.grows.trans h.grows
  looks q := by
    rcases h'.looks q with new | ⟨same, same'⟩
    · exact .inl new
    · rcases h.looks q with new | ⟨old, old'⟩
      · exact .inl (same.trans (new.trans same'.symm))
      · exact .inr ⟨same.trans old, same'.trans old'⟩

/-- A directory that was made is not made again. -/
theorem makeIn_again (there : t.look? p = some .dir) (hg : (t.makeIn p n).1.Grows d) :
    d.makeIn p n = (d, (t.makeIn p n).2) := by
  cases hm : t.makeIn p n with
  | mk c went =>
    rw [hm] at hg
    cases went with
    | true =>
      have short := ((makeIn_snd_iff (t := t) (p := p) n).1 (by rw [hm])).1
      rw [makeIn, if_neg short, hg.dir _ (look?_of_makeIn there hm)]
    | false =>
      have same := makeIn_failed hm
      subst same
      unfold makeIn at hm ⊢
      split
      · rfl
      · rename_i short
        rw [if_neg short] at hm
        cases hl : c.look? (p ++ [n]) with
        | none =>
          rw [hl] at hm
          cases congrArg Prod.snd hm
        | some l =>
          rw [hl] at hm
          cases l with
          | dir => cases congrArg Prod.snd hm
          | link target => rw [hg.link _ target hl]
          | file content =>
            obtain ⟨content', hd⟩ := hg.file _ content hl
            rw [hd]

/-- Directories that were made, as far as they could be, are not made again. -/
theorem makeBelow_again (there : t.look? p = some .dir) (hg : (t.makeBelow p ns).1.Grows d) :
    d.makeBelow p ns = (d, (t.makeBelow p ns).2) := by
  induction ns generalizing t p with
  | nil => rfl
  | cons n ns ih =>
    have first := makeIn_again (n := n) (d := d) there
    unfold makeBelow at hg ⊢
    cases hm : t.makeIn p n with
    | mk c went =>
      rw [hm] at hg first
      cases went with
      | true =>
        have inside := look?_of_makeIn there hm
        rw [first ((grows_makeBelow inside ns).trans hg)]
        exact ih inside hg
      | false => rw [first hg]

/-- Directories that were made are not made again. -/
theorem again_makeBelow (there : t.look? p = some .dir) (hg : (t.makeBelow p ns).1.Grows d) :
    Again t (t.makeBelow p ns).1 d d where
  grows := .refl d
  looks q := by
    rcases look?_makeBelow there ns q with same | ⟨-, made, -⟩
    · exact .inr ⟨rfl, same⟩
    · exact .inl ((hg.dir q made).trans made.symm)

/-- A file that was stored, or could not be stored, is stored again or cannot. -/
theorem storeIn_again (there : t.look? p = some .dir) (hg : (t.storeIn p n content).1.Grows d) :
    (d.storeIn p n content).2 = (t.storeIn p n content).2 ∧
      Again t (t.storeIn p n content).1 d (d.storeIn p n content).1 := by
  have inside : d.look? p = some .dir := hg.dir p ((grows_storeIn there n content).dir p there)
  cases hs : (t.storeIn p n content).2 with
  | true =>
    have looks := look?_storeIn there hs
    obtain ⟨short, -⟩ := (storeIn_snd_iff n content).1 hs
    obtain ⟨old, hold⟩ := hg.file (p ++ [n]) content (by rw [looks, if_pos rfl])
    have again : (d.storeIn p n content).2 = true := (storeIn_snd_iff n content).2 ⟨short, .inr ⟨old, hold⟩⟩
    have looks' := look?_storeIn inside again
    refine ⟨again, .of_looks fun q => ?_, fun q => ?_⟩
    · rw [looks']
      split
      · rename_i same
        exact .inr (.inr ⟨⟨content, rfl⟩, old, same ▸ hold⟩)
      · exact .inl rfl
    · rw [looks, looks']
      split
      · exact .inl rfl
      · exact .inr ⟨rfl, rfl⟩
  | false =>
    -- what stood in the way of the file stays in the way when the tree has grown
    have again : (d.storeIn p n content).2 = false := by
      rw [storeIn_failed hs] at hg
      rw [Bool.eq_false_iff, ne_eq, storeIn_snd_iff] at hs ⊢
      rintro ⟨short, free⟩
      refine hs ⟨short, ?_⟩
      cases hl : t.look? (p ++ [n]) with
      | none => exact .inl rfl
      | some l =>
        cases l with
        | file old => exact .inr ⟨old, rfl⟩
        | dir =>
          have stays := hg.dir _ hl
          rcases free with none | ⟨old, file⟩
          · cases none.symm.trans stays
          · cases file.symm.trans stays
        | link target =>
          have stays := hg.link _ target hl
          rcases free with none | ⟨old, file⟩
          · cases none.symm.trans stays
          · cases file.symm.trans stays
    rw [storeIn_failed hs, storeIn_failed again]
    exact ⟨again, .refl t d⟩

/-- What is done below a directory makes the tree grow and, done once more to a tree that has grown since, goes as it
went and changes nothing more. -/
structure Repeatable (p : Place) (f : Tree → Tree × Bool) : Prop where
  grows : ∀ t : Tree, t.look? p = some .dir → t.Grows (f t).1
  again : ∀ t d : Tree, t.look? p = some .dir → (f t).1.Grows d → (f d).2 = (f t).2 ∧ Again t (f t).1 d (f d).1

theorem repeatable_makeBelow (p : Place) (ns : List String) : Repeatable p fun t => t.makeBelow p ns where
  grows _ there := grows_makeBelow there ns
  again _ _ there hg := by
    rw [makeBelow_again there hg]
    exact ⟨rfl, again_makeBelow there hg⟩

theorem repeatable_storeIn (p : Place) (n : String) (content : ByteArray) :
    Repeatable p fun t => t.storeIn p n content where
  grows _ there := grows_storeIn there n content
  again _ _ there hg := storeIn_again there hg

/-- One after the other, where the first leads to the place of the second. -/
theorem Repeatable.andThen {f g : Tree → Tree × Bool} (hf : Repeatable p f) (hg : Repeatable q g)
    (leads : ∀ t : Tree, t.look? p = some .dir → (f t).2 = true → (f t).1.look? q = some .dir) :
    Repeatable p fun t => andThen (f t) g where
  grows t there := fst_andThen (hf.grows t there) fun went =>
    (hf.grows t there).trans (hg.grows _ (leads t there went))
  again t d there grown := by
    cases went : (f t).2 with
    | false =>
      rw [andThen_of_failed went] at grown ⊢
      obtain ⟨failed, first⟩ := hf.again t d there grown
      rw [andThen_of_failed (failed.trans went)]
      exact ⟨failed, first⟩
    | true =>
      rw [andThen_of_done went] at grown ⊢
      have inside := leads t there went
      -- what comes second has let the tree grow further, so the first is repeated in a tree that has grown, too
      have grown' : (f t).1.Grows d := (hg.grows _ inside).trans grown
      have there' : d.look? p = some .dir := grown'.dir p ((hf.grows t there).dir p there)
      obtain ⟨done, first⟩ := hf.again t d there grown'
      obtain ⟨same, second⟩ := hg.again (f t).1 (f d).1 inside (grown.trans (hf.grows d there'))
      rw [andThen_of_done (done.trans went)]
      exact ⟨same, first.trans second⟩

end InPlace.Files.Tree

import InPlace.Proofs.Files.Walking

/-!
# Trees that stay tidy

Where a tree is as an operating system keeps it, it stays so when directories are made and files are written: what is put
into a directory has a name that it can have, and takes the place of what had that name.

Main statements: `Tidy.put`, `Tidy.makeAll` and `Tidy.storeIn`.
-/

namespace InPlace.Files.Tree

variable {t u c : Tree} {p : Place} {n path : String} {ns : List String} {es : List (String × Tree)}

/-! ## Entries -/

/-- An entry is the one that was put, or was there. -/
theorem mem_putEntry {e : String × Tree} (h : e ∈ putEntry n u es) : e = (n, u) ∨ e ∈ es := by
  induction es with
  | nil => exact .inl (List.mem_singleton.1 h)
  | cons first es ih =>
    obtain ⟨m, v⟩ := first
    unfold putEntry at h
    split at h
    · exact (List.mem_cons.1 h).imp_right (List.mem_cons_of_mem _)
    · rcases List.mem_cons.1 h with same | h
      · exact .inr (same ▸ List.mem_cons_self)
      · exact (ih h).imp_right (List.mem_cons_of_mem _)

/-- Names stay different when an entry is put among them. -/
theorem nodup_putEntry (h : (es.map Prod.fst).Nodup) : ((putEntry n u es).map Prod.fst).Nodup := by
  induction es with
  | nil => exact List.nodup_singleton _
  | cons first es ih =>
    obtain ⟨m, v⟩ := first
    rw [List.map_cons, List.nodup_cons] at h
    unfold putEntry
    split
    · rename_i same
      rw [List.map_cons, List.nodup_cons]
      exact same ▸ h
    · rename_i other
      rw [List.map_cons, List.nodup_cons]
      refine ⟨fun hm => ?_, ih h.2⟩
      obtain ⟨e, he, name⟩ := List.mem_map.1 hm
      rcases mem_putEntry he with rfl | he
      · exact other name.symm
      · exact h.1 (List.mem_map.2 ⟨e, he, name⟩)

theorem TidyEntries.putEntry (h : TidyEntries es) (hn : Proper n) (short : ¬ maxNameLength < n.utf8ByteSize) :
    TidyEntries (putEntry n u es) where
  nodup := nodup_putEntry h.nodup
  proper e he := (mem_putEntry he).elim (fun new => new ▸ hn) (h.proper e)
  short e he := (mem_putEntry he).elim (fun new => new ▸ short) (h.short e)

theorem Tidy.entries (ht : (Tree.dir es).Tidy) : TidyEntries es :=
  ht [] es rfl

theorem Tidy.entry (ht : (Tree.dir es).Tidy) {e : String × Tree} (he : e ∈ es) : e.2.Tidy := by
  intro p fs hp
  refine ht (e.1 :: p) fs ?_
  show (lookup e.1 es).bind _ = _
  rw [ht.entries.lookup_eq he]
  exact hp

/-! ## Putting -/

/-- A tree stays tidy when a tidy one is put at a name as an operating system keeps it. -/
theorem Tidy.put (ht : t.Tidy) (there : t.look? p = some .dir) (hn : Proper n) (short : ¬ maxNameLength < n.utf8ByteSize)
    (hu : u.Tidy) : (t.put (p ++ [n]) u).Tidy := by
  -- on the place; the directories on the way down keep their names
  have dir := look?_eq_dir_iff.1 there
  clear there
  induction dir using dir_induction with
  | here entries _ =>
    exact tidy_dir (ht.entries.putEntry hn short) fun e he => (mem_putEntry he).elim (fun new => new ▸ hu) ht.entry
  | @below entries a child p found _ _ ih =>
    have mem := mem_of_lookup found
    have deeper : (child.put (p ++ [n]) u).Tidy := ih (ht.entry mem)
    rw [put_cons found]
    exact tidy_dir (ht.entries.putEntry (ht.entries.proper _ mem) (ht.entries.short _ mem)) fun e he =>
      (mem_putEntry he).elim (fun new => new ▸ deeper) ht.entry

theorem tidy_nil : (Tree.dir []).Tidy :=
  tidy_dir ⟨List.nodup_nil, List.forall_mem_nil _, List.forall_mem_nil _⟩ (List.forall_mem_nil _)

/-! ## Directories from the top -/

/-- A tree stays tidy when a directory is made by its path. -/
theorem Tidy.makeDir (ht : t.Tidy) (h : t.makeDir path = .ok c) : c.Tidy := by
  unfold Tree.makeDir at h
  split at h
  · cases h
  · rename_i zero
    split at h
    · cases h
    · rename_i n last
      obtain ⟨p, leads, here, up, short, -, rfl⟩ := of_makeEntry h
      have mem : n ∈ pathNames path := List.mem_of_getLast? last
      obtain ⟨nonempty, slash⟩ := of_mem_namesIn (pathNames_eq path ▸ mem)
      rw [contains_zero, not_not] at zero
      exact ht.put leads.dir ⟨⟨nonempty, slash, here⟩, up, zero n mem⟩ short tidy_nil

theorem Tidy.makeAll (ht : t.Tidy) (paths : List String) : (t.makeAll paths).1.Tidy :=
  makeAll_induction Tidy.makeDir ht paths

theorem Tidy.of_outcome (ht : t.Tidy) {paths : List String} {went : Bool} (h : outcome (t.makeAll paths) = (c, went)) :
    c.Tidy :=
  fst_of_outcome h ▸ ht.makeAll paths

/-! ## Below a directory -/

theorem Tidy.makeIn (ht : t.Tidy) (there : t.look? p = some .dir) (hn : Proper n) : (t.makeIn p n).1.Tidy := by
  unfold Tree.makeIn
  split
  · exact ht
  · rename_i short
    split
    · exact ht.put there hn short tidy_nil
    · exact ht
    · exact ht

/-- A tree stays tidy when directories are made below a place. -/
theorem Tidy.makeBelow (ht : t.Tidy) (there : t.look? p = some .dir) (hn : ∀ m ∈ ns, Proper m) :
    (t.makeBelow p ns).1.Tidy := by
  induction ns generalizing t p with
  | nil => exact ht
  | cons n ns ih =>
    have first := ht.makeIn there (hn n List.mem_cons_self)
    unfold Tree.makeBelow
    cases hm : t.makeIn p n with
    | mk d went =>
      rw [hm] at first
      cases went with
      | false => exact first
      | true => exact ih first (look?_of_makeIn there hm) fun m hm => hn m (List.mem_cons_of_mem _ hm)

/-- A tree stays tidy when a file is written in a directory. -/
theorem Tidy.storeIn (ht : t.Tidy) (there : t.look? p = some .dir) (hn : Proper n) (content : ByteArray) :
    (t.storeIn p n content).1.Tidy := by
  rw [storeIn_eq]
  split
  · rename_i stored
    exact ht.put there hn ((storeIn_snd_iff n content).1 stored).1 (tidy_file content)
  · exact ht

end InPlace.Files.Tree

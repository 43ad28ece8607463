import InPlace.Proofs.Files.Reading

/-!
# Texts that are written

A text that was written to a path is read there. The path may lead through links, and the file may have been missing.

Main statement: `readText_of_writeText`.
-/

namespace InPlace.Files.Tree

variable {t c : Tree} {links : Nat} {here p : Place} {name : String} {xs : List String} {path text : String}

/-- A place that paths end at: a directory, or what stands in one and is no link. -/
inductive Solid (t : Tree) : Place → Prop
  | dir {p : Place} (there : t.look? p = some .dir) : Solid t p
  | entry {p : Place} (inside : t.look? p = some .dir) (name : String) (l : Look) (look : t.look? (p ++ [name]) = some l)
      (other : ∀ target, l ≠ .link target) : Solid t (p ++ [name])

/-- A path goes on from a place that paths end at. -/
theorem Advances.solid {n : Nat} {q : Place} {front : List String} (s : t.Advances links here name n q front) :
    t.Solid q := by
  cases s with
  | stay dir => exact .dir dir
  | up dir => exact .dir (look?_dropLast_of_dir dir)
  | link enters look =>
    have top : t.look? [] = some .dir := look?_of_append (q := here ++ [name])
      (by rw [List.nil_append, look]; exact Option.some_ne_none _) (by simp)
    split
    · exact .dir top
    · exact .dir enters.dir
  | entry enters look other => exact .entry enters.dir name _ look other

theorem Solid.found (hs : t.Solid here) (h : t.locate links here xs = .ok (.found p)) : t.Solid p := by
  induction h using found_induction with
  | here links => exact hs
  | step s h ih => exact ih s.solid

/-- A name that is missing leads to the file that is written there. -/
theorem Grows.locate_absent (hg : t.Grows c) {content : ByteArray} (file : c.look? (p ++ [name]) = some (.file content))
    (h : t.locate links here xs = .ok (.absent p name)) : c.locate links here xs = .ok (.found (p ++ [name])) := by
  induction h using absent_induction with
  | last links enters nothing => rw [locate_entry (hg.enters enters) file nofun, locate_nil]
  | step s h ih => rwa [(hg.advances s).locate]

/-- A file that is written where a path leads to is there, and the path leads to it. -/
theorem locate_put_found (h : t.locate links [] xs = .ok (.found p)) (hd : t.look? p ≠ some .dir) (content : ByteArray) :
    (t.put p (.file content)).locate links [] xs = .ok (.found p) ∧
      (t.put p (.file content)).look? p = some (.file content) := by
  cases xs with
  | nil =>
    rw [locate_nil] at h
    cases h
    exact ⟨locate_nil _ _ _, rfl⟩
  | cons first rest =>
    cases (Solid.dir (locate_step_dir h)).found h with
    | dir there => exact absurd there hd
    | entry inside name l look other =>
      cases l with
      | link target => exact absurd rfl (other target)
      | dir => exact absurd look hd
      | file old =>
        have there : ∃ old, t.look? (_ ++ [name]) = some (.file old) := ⟨old, look⟩
        refine ⟨(Grows.putFile inside (.inr there) content).locate_found h, ?_⟩
        rw [look?_putFile inside (.inr there), if_pos rfl]

/-- A file that is written where a name is missing is there, and the path leads to it. -/
theorem locate_put_absent (h : t.locate links here xs = .ok (.absent p name)) (content : ByteArray) :
    (t.put (p ++ [name]) (.file content)).locate links here xs = .ok (.found (p ++ [name])) ∧
      (t.put (p ++ [name]) (.file content)).look? (p ++ [name]) = some (.file content) := by
  obtain ⟨inside, nothing⟩ := look?_of_absent h
  have file : (t.put (p ++ [name]) (.file content)).look? (p ++ [name]) = some (.file content) := by
    rw [look?_putFile inside (.inl nothing), if_pos rfl]
  exact ⟨(Grows.putFile inside (.inl nothing) content).locate_absent file h, file⟩

/-- A text that was written is read back. -/
theorem readText_of_writeText (h : t.writeText path text = .ok c) : c.readText path = .ok text := by
  rw [readText_eq_ok_iff]
  unfold writeText at h
  split at h
  · rename_i p found
    split at h
    · cases h
    · rename_i other
      cases h
      have hd : t.look? p ≠ some .dir := fun there =>
        let ⟨es, hes⟩ := look?_eq_dir_iff.1 there
        other es hes
      obtain ⟨zero, empty, leads⟩ := locatePath_eq_ok_iff.1 found
      obtain ⟨leads', file⟩ := locate_put_found leads hd text.toUTF8
      exact ⟨p, locatePath_eq_ok_iff.2 ⟨zero, empty, leads'⟩, file⟩
  · rename_i parent name absent
    cases h
    obtain ⟨zero, empty, leads⟩ := locatePath_eq_ok_iff.1 absent
    obtain ⟨leads', file⟩ := locate_put_absent leads text.toUTF8
    exact ⟨parent ++ [name], locatePath_eq_ok_iff.2 ⟨zero, empty, leads'⟩, file⟩
  · cases h

/-- A path whose text can be read leads somewhere. -/
theorem pathExists_of_readText (h : t.readText path = .ok text) : t.pathExists path = true := by
  obtain ⟨p, found, file⟩ := readText_eq_ok_iff.1 h
  rw [pathExists, read_eq_of_locate found (look?_eq_file_iff.1 file)]
  rfl

end InPlace.Files.Tree

import InPlace.Proofs.Files.Making

/-!
# Texts of files

The text of a file depends on where its path leads and on what is there. Both stay where a tree grows and the file is not
written.

Main statements: `readText_eq_ok_iff` and `Grows.readText_eq`.
-/

namespace InPlace.Files.Tree

variable {t c : Tree} {p : Place} {path source : String}

/-- The bytes of a text are read as that text, and no others are. -/
theorem fromUTF8?_eq_some_iff {content : ByteArray} {s : String} :
    String.fromUTF8? content = some s ↔ content = s.toUTF8 := by
  constructor
  · intro h
    unfold String.fromUTF8? at h
    split at h
    · cases h
      rfl
    · cases h
  · rintro rfl
    have valid : s.toUTF8.IsValidUTF8 := s.isValidUTF8
    unfold String.fromUTF8?
    rw [dif_pos valid]
    rfl

/-- The text of a file that a path leads to. -/
theorem readText_of_file {content : ByteArray} (found : t.locatePath path = .ok (.found p))
    (file : t.look? p = some (.file content)) :
    t.readText path = (String.fromUTF8? content).elim (.error .notText) .ok := by
  unfold readText
  simp only [read_eq_of_locate found (look?_eq_file_iff.1 file)]
  cases String.fromUTF8? content with
  | none => exact Eq.refl _
  | some s => exact Eq.refl _

/-- A path whose text can be read leads to the bytes of that text. -/
theorem readText_eq_ok_iff : t.readText path = .ok source ↔
    ∃ p, t.locatePath path = .ok (.found p) ∧ t.look? p = some (.file source.toUTF8) := by
  constructor
  · intro h
    unfold readText at h
    split at h
    · rename_i content read
      obtain ⟨p, found, file⟩ := read_eq_ok_iff.1 read
      refine ⟨p, found, look?_eq_file_iff.2 ?_⟩
      split at h
      · rename_i text decoded
        cases h
        rw [file, fromUTF8?_eq_some_iff.1 decoded]
      · cases h
    · cases h
    · cases h
  · rintro ⟨p, found, file⟩
    have read : String.fromUTF8? source.toUTF8 = some source := fromUTF8?_eq_some_iff.2 rfl
    simp only [readText_of_file found file, read, Option.elim_some]

theorem Grows.locatePath_found (hg : t.Grows c) (h : t.locatePath path = .ok (.found p)) :
    c.locatePath path = .ok (.found p) :=
  let ⟨zero, empty, leads⟩ := locatePath_eq_ok_iff.1 h
  locatePath_eq_ok_iff.2 ⟨zero, empty, hg.locate_found leads⟩

theorem Grows.isDir (hg : t.Grows c) (h : t.isDir path = true) : c.isDir path = true :=
  let ⟨q, found, there⟩ := isDir_eq.1 h
  isDir_eq.2 ⟨q, hg.locatePath_found found, hg.dir q there⟩

theorem Grows.isFile (hg : t.Grows c) (h : t.isFile path = true) : c.isFile path = true :=
  let ⟨q, content, found, file⟩ := isFile_eq.1 h
  let ⟨content', file'⟩ := hg.file q content file
  isFile_eq.2 ⟨q, content', hg.locatePath_found found, file'⟩

/-- The text of a file that is not written stays when the tree grows. -/
theorem Grows.readText_eq (hg : t.Grows c) (h : t.isFile path = true)
    (same : ∀ p, t.locatePath path = .ok (.found p) → c.look? p = t.look? p) : c.readText path = t.readText path := by
  obtain ⟨p, content, found, file⟩ := isFile_eq.1 h
  rw [readText_of_file found file, readText_of_file (hg.locatePath_found found) ((same p found).trans file)]

end InPlace.Files.Tree

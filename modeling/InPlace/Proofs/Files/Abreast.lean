import InPlace.Proofs.Files.Depths

/-!
# Walks that go abreast

Two trees may hold the same trees at some of their places. A walk through one of them and a walk through the other come
to such places by the same names, if each link that they come to leads on both sides to such places, or on both sides to
none. Then both list files by the same names, and where these lead is the same on both sides.

Main statements: `Abreast.namesWithin_eq` and `Abreast.leadAlike`, from `Abreast.step`.
-/

namespace InPlace.Files.Tree

open Text.Path (join)

variable {t t' : Tree} {pairs : List (Place × Place)} {p p' q q' d d' r r' : Place} {n path path' : String}
  {ns ms : List String} {skipped : String → Bool} {walked walked' : List Place} {k : Nat}

/-! ## Places that stand for one another -/

/-- Neither of two places is within the other. -/
structure Separate (p q : Place) : Prop where
  outside : ¬ p <+: q
  outside' : ¬ q <+: p

instance (p q : Place) : Decidable (Separate p q) :=
  decidable_of_iff (¬ p <+: q ∧ ¬ q <+: p) ⟨fun ⟨h, h'⟩ => ⟨h, h'⟩, fun h => ⟨h.outside, h.outside'⟩⟩

/-- Two trees hold the same trees at pairs of places, which are separate from each other in both. -/
structure Sharing (t t' : Tree) (pairs : List (Place × Place)) : Prop where
  same : ∀ e ∈ pairs, t.get? e.1 = t'.get? e.2
  separate : ∀ e ∈ pairs, ∀ f ∈ pairs, e ≠ f → Separate e.1 f.1 ∧ Separate e.2 f.2

/-- Places that are as far below the places of a pair. -/
def Counterpart (pairs : List (Place × Place)) (p p' : Place) : Prop :=
  ∃ e ∈ pairs, ∃ q, p = e.1 ++ q ∧ p' = e.2 ++ q

/-- Nothing is below both of two separate places. -/
theorem Separate.append_ne (h : Separate p q) (r r' : Place) : p ++ r ≠ q ++ r' := by
  intro same
  have within : p <+: q ++ r' := ⟨r, same⟩
  have within' : q <+: q ++ r' := List.prefix_append q r'
  exact (List.prefix_or_prefix_of_prefix within within').elim h.outside h.outside'

theorem Counterpart.of_mem (h : (p, p') ∈ pairs) (q : Place) : Counterpart pairs (p ++ q) (p' ++ q) :=
  ⟨(p, p'), h, q, rfl, rfl⟩

theorem Counterpart.snoc (h : Counterpart pairs p p') (n : String) : Counterpart pairs (p ++ [n]) (p' ++ [n]) := by
  obtain ⟨e, he, q, rfl, rfl⟩ := h
  exact ⟨e, he, q ++ [n], List.append_assoc _ _ _, List.append_assoc _ _ _⟩

/-- Two trees share what stands at a place of each. -/
theorem sharing_singleton (same : t.get? p = t'.get? p') : Sharing t t' [(p, p')] where
  same e he := by rw [List.mem_singleton.1 he, same]
  separate e he f hf other := absurd ((List.mem_singleton.1 he).trans (List.mem_singleton.1 hf).symm) other

namespace Sharing

variable (h : Sharing t t' pairs)

include h

/-- What is at a place is at the one that stands for it. -/
theorem get?_eq (hp : Counterpart pairs p p') : t.get? p = t'.get? p' := by
  obtain ⟨e, he, q, rfl, rfl⟩ := hp
  rw [get?_append, get?_append, h.same e he]

theorem look?_eq (hp : Counterpart pairs p p') : t.look? p = t'.look? p' := by
  rw [look?, look?, h.get?_eq hp]

theorem entryNames_eq (hp : Counterpart pairs p p') : t.entryNames p = t'.entryNames p' := by
  rw [entryNames, entryNames, h.get?_eq hp]

/-- One place stands for one place only, on either side. -/
theorem eq_iff (hp : Counterpart pairs p p') (hq : Counterpart pairs q q') : p = q ↔ p' = q' := by
  obtain ⟨e, he, r, rfl, rfl⟩ := hp
  obtain ⟨f, hf, s, rfl, rfl⟩ := hq
  by_cases one : e = f
  · rw [one, List.append_right_inj, List.append_right_inj]
  · -- what is below two pairs is not the same place on any side
    obtain ⟨left, right⟩ := h.separate e he f hf one
    exact iff_of_false (left.append_ne r s) (right.append_ne r s)

theorem mem_iff (hq : Counterpart pairs q q') (hw : List.Forall₂ (Counterpart pairs) walked walked') :
    q ∈ walked ↔ q' ∈ walked' := by
  induction hw with
  | nil => exact iff_of_false List.not_mem_nil List.not_mem_nil
  | cons first rest ih => rw [List.mem_cons, List.mem_cons, h.eq_iff hq first, ih]

end Sharing

/-- Two paths lead to places that stand for one another, or neither leads to a place. -/
inductive LeadAlike (pairs : List (Place × Place)) : Option Place → Option Place → Prop
  | there {p p' : Place} (h : Counterpart pairs p p') : LeadAlike pairs (some p) (some p')
  | nowhere : LeadAlike pairs none none

/-- Where a path leads, if it leads to a place. -/
def placeAt? (t : Tree) (path : String) : Option Place :=
  placeOf? (t.locatePath path)

theorem placeAt?_eq_some : t.placeAt? path = some p ↔ t.locatePath path = .ok (.found p) :=
  placeOf?_eq_some

/-- What stands at the places of two paths is the same, if these stand for one another. -/
theorem Sharing.read_eq (h : Sharing t t' pairs) (hp : Counterpart pairs p p')
    (found : t.locatePath path = .ok (.found p)) (found' : t'.locatePath path' = .ok (.found p')) :
    t.read path = t'.read path' := by
  unfold read
  rw [found, found']
  dsimp only
  rw [h.get?_eq hp]

/-- Paths that lead alike both lead to a file that is read, or none does. -/
theorem isFile_of_leadAlike (h : LeadAlike pairs (t.placeAt? path) (t'.placeAt? path')) (sharing : Sharing t t' pairs) :
    t.isFile path = t'.isFile path' ∧ (t.isFile path = true → t.read path = t'.read path') := by
  have noFile {t : Tree} {path : String} (nowhere : t.placeAt? path = none) : t.isFile path = false := by
    rw [Bool.eq_false_iff, ne_eq, isFile_eq]
    rintro ⟨p, content, found, -⟩
    rw [placeAt?_eq_some.2 found] at nowhere
    cases nowhere
  generalize left : t.placeAt? path = l at h
  generalize right : t'.placeAt? path' = l' at h
  cases h with
  | there hp =>
    have read := sharing.read_eq hp (placeAt?_eq_some.1 left) (placeAt?_eq_some.1 right)
    refine ⟨?_, fun _ => read⟩
    rw [isFile, isFile, read]
  | nowhere =>
    rw [noFile left, noFile right]
    exact ⟨rfl, nofun⟩

/-! ## Where a walk comes, with what it is within -/

/-- A walk from a path that leads to `p` comes by the names to a directory, within the directories `walked`. -/
inductive Visits (t : Tree) (skipped : String → Bool) (path : String) (p : Place) :
    List String → List Place → Place → Prop
  | here : Visits t skipped path p [] [p] p
  | step {ns : List String} {walked : List Place} {d q : Place} {n : String}
      (way : Visits t skipped path p ns walked d) (came : t.comesTo? (joins path ns) d n = some q)
      (dir : t.look? q = some .dir) (fresh : t.look? (d ++ [n]) ≠ some .dir → q ∉ walked) (kept : skipped n = false) :
      Visits t skipped path p (ns ++ [n]) (q :: walked) q

theorem joins_snoc (path : String) (ns : List String) (n : String) : joins path (ns ++ [n]) = join (joins path ns) n :=
  List.foldl_append

/-- The path by the names that a walk has come by leads to where it has come. -/
theorem Visits.arrives (h : t.Visits skipped path p ns walked d) (ht : t.Tidy)
    (found : t.locatePath path = .ok (.found p)) : t.Arrives (joins path ns) d := by
  induction h with
  | here => exact arrives_of_found found
  | step way came dir fresh kept ih =>
    rw [joins_snoc]
    exact ih.step ht came

/-- A walk comes on only at entries. -/
theorem mem_entryNames_of_comesTo? (came : t.comesTo? path d n = some q) : n ∈ t.entryNames d := by
  rw [mem_entryNames]
  intro none
  rw [comesTo?, none] at came
  cases came

/-- From a directory whose entries lead to no directory a walk comes nowhere. -/
theorem Visits.eq_here (h : t.Visits skipped path p ns walked d)
    (flat : ∀ n ∈ t.entryNames p, (t.comesTo? path p n).bind t.look? ≠ some .dir) : ns = [] ∧ d = p := by
  induction h with
  | here => exact ⟨rfl, rfl⟩
  | @step ns walked d q n way came dir fresh kept ih =>
    obtain ⟨rfl, rfl⟩ := ih
    refine absurd ?_ (flat n (mem_entryNames_of_comesTo? came))
    rw [show t.comesTo? path d n = some q from came]
    exact dir

/-! ## Abreast -/

/-- The path of a walk leads alike on both sides, and so does the path to each link that the walk comes to. -/
structure Parallel (t t' : Tree) (pairs : List (Place × Place)) (skipped : String → Bool) (path path' : String) :
    Prop where
  start : LeadAlike pairs (t.placeAt? path) (t'.placeAt? path')
  links : ∀ p ns walked d n target, t.locatePath path = .ok (.found p) → t.Visits skipped path p ns walked d →
    t.look? (d ++ [n]) = some (.link target) →
      LeadAlike pairs (t.placeAt? (joins path (ns ++ [n]))) (t'.placeAt? (joins path' (ns ++ [n])))

/-- Two walks have come by the same names to places that stand for one another, within such places. -/
structure Abreast (t t' : Tree) (pairs : List (Place × Place)) (skipped : String → Bool) (path path' : String)
    (p p' : Place) (ns : List String) (walked walked' : List Place) (d d' : Place) : Prop where
  left : t.Visits skipped path p ns walked d
  right : t'.Visits skipped path' p' ns walked' d'
  here : Counterpart pairs d d'
  within : List.Forall₂ (Counterpart pairs) walked walked'

theorem Abreast.start (h : Counterpart pairs p p') : Abreast t t' pairs skipped path path' p p' [] [p] [p'] p p' :=
  ⟨.here, .here, h, .cons h .nil⟩

namespace Abreast

variable (sharing : Sharing t t' pairs) (parallel : Parallel t t' pairs skipped path path')
  (found : t.locatePath path = .ok (.found p)) (abreast : Abreast t t' pairs skipped path path' p p' ns walked walked' d d')

include sharing parallel found abreast

/-- At an entry both walks come to places that stand for one another, or both come nowhere. -/
theorem comesTo? (n : String) :
    LeadAlike pairs (t.comesTo? (joins path ns) d n) (t'.comesTo? (joins path' ns) d' n) := by
  have entry := abreast.here.snoc n
  have look := sharing.look?_eq entry
  cases there : t.look? (d ++ [n]) with
  | none =>
    rw [Tree.comesTo?, Tree.comesTo?, ← look, there]
    exact .nowhere
  | some l =>
    cases l with
    | link target =>
      rw [comesTo?_of_link there, comesTo?_of_link (look.symm.trans there), ← joins_snoc, ← joins_snoc]
      exact parallel.links p ns walked d n target found abreast.left there
    | dir =>
      rw [comesTo?_of_other there Look.dir_ne_link, comesTo?_of_other (look.symm.trans there) Look.dir_ne_link]
      exact .there entry
    | file content =>
      have other := Look.file_ne_link content
      rw [comesTo?_of_other there other, comesTo?_of_other (look.symm.trans there) other]
      exact .there entry

/-- Where one walk comes to the other comes to what stands for it. -/
theorem exists_comesTo? (came : t.comesTo? (joins path ns) d n = some q) :
    ∃ q', t'.comesTo? (joins path' ns) d' n = some q' ∧ Counterpart pairs q q' := by
  have both := abreast.comesTo? sharing parallel found n
  rw [came] at both
  generalize t'.comesTo? (joins path' ns) d' n = l' at both
  cases both with
  | there hq => exact ⟨_, rfl, hq⟩

omit parallel found in
/-- If one walk goes on to a directory, the other goes on with it. -/
theorem step (came : t.comesTo? (joins path ns) d n = some q) (came' : t'.comesTo? (joins path' ns) d' n = some q')
    (hq : Counterpart pairs q q') (dir : t.look? q = some .dir)
    (fresh : t.look? (d ++ [n]) ≠ some .dir → q ∉ walked) (kept : skipped n = false) :
    Abreast t t' pairs skipped path path' p p' (ns ++ [n]) (q :: walked) (q' :: walked') q q' where
  left := .step abreast.left came dir fresh kept
  right := by
    refine .step abreast.right came' ((sharing.look?_eq hq).symm.trans dir) (fun other => ?_) kept
    rw [← sharing.look?_eq (abreast.here.snoc n)] at other
    exact fun again => fresh other ((sharing.mem_iff hq abreast.within).2 again)
  here := hq
  within := .cons hq abreast.within

/-- Both walks go on by the same names. -/
theorem namesWithin_eq (k : Nat) : t.namesWithin skipped k walked d (joins path ns) =
    t'.namesWithin skipped k walked' d' (joins path' ns) := by
  induction k generalizing ns walked walked' d d' with
  | zero => rfl
  | succ k ih =>
    rw [namesWithin, namesWithin, sharing.entryNames_eq abreast.here]
    refine List.flatMap_congr fun n _ => ?_
    cases came : t.comesTo? (joins path ns) d n with
    | none =>
      have both := abreast.comesTo? sharing parallel found n
      rw [came] at both
      generalize came' : t'.comesTo? (joins path' ns) d' n = l' at both
      cases both
      rw [namesFrom, namesFrom, came, came']
    | some q =>
      obtain ⟨q', came', hq⟩ := abreast.exists_comesTo? sharing parallel found came
      have look := sharing.look?_eq hq
      have entry := sharing.look?_eq (abreast.here.snoc n)
      have again := sharing.mem_iff hq abreast.within
      rw [namesFrom, namesFrom, came, came']
      dsimp only
      rw [← look, ← entry]
      cases there : t.look? q with
      | none => rfl
      | some l =>
        cases l with
        | file content => rfl
        | link target => rfl
        | dir =>
          dsimp only
          by_cases left : (t.look? (d ++ [n]) ≠ some .dir ∧ q ∈ walked) ∨ skipped n = true
          · rw [if_pos left, if_pos (left.imp_left (And.imp_right again.1))]
          · rw [if_neg left, if_neg fun left' => left (left'.imp_left (And.imp_right again.2))]
            rw [not_or, not_and] at left
            have next := abreast.step sharing came came' hq there left.1 (Bool.eq_false_iff.2 left.2)
            rw [← joins_snoc, ← joins_snoc, ih next]

/-- The paths by which both walks list a file lead alike, and somewhere. -/
theorem leadAlike (ht : t.Tidy) (ht' : t'.Tidy) (found' : t'.locatePath path' = .ok (.found p')) (k : Nat)
    (listed : ms ∈ t.namesWithin skipped k walked d (joins path ns)) :
    ∃ q q', Counterpart pairs q q' ∧ t.locatePath (joins path (ns ++ ms)) = .ok (.found q) ∧
      t'.locatePath (joins path' (ns ++ ms)) = .ok (.found q') := by
  induction k generalizing ns walked walked' d d' ms with
  | zero => cases listed
  | succ k ih =>
    obtain ⟨n, -, inside⟩ := List.mem_flatMap.1 listed
    obtain ⟨q, rest, came, rfl, step⟩ := mem_namesFrom_iff.1 inside
    obtain ⟨q', came', hq⟩ := abreast.exists_comesTo? sharing parallel found came
    obtain ⟨-, rfl⟩ | ⟨dir, fresh, kept, deeper⟩ := step
    · refine ⟨q, q', hq, ?_, ?_⟩
      · rw [joins_snoc]
        exact (abreast.left.arrives ht found).locatePath_join ht came
      · rw [joins_snoc]
        exact (abreast.right.arrives ht' found').locatePath_join ht' came'
    · rw [← joins_snoc] at deeper
      have next := ih (abreast.step sharing came came' hq dir fresh kept) deeper
      rwa [List.append_assoc] at next

end Abreast

end InPlace.Files.Tree

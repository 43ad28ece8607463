import InPlace.Proofs.Files.Abreast

/-!
# Trees below a place

The path of a directory leads to a place, and leaves some links to be followed from there. Walks through two such
directories are abreast, if names lead on alike from both places. So they are where both paths lead to one place, and
where the same tree stands at both places and no link leads out of it, as long as the links that are left are as good on
both sides; where there are no links, any are.

Main statements: `Reached.parallel_self`, `Holds.parallel` and `LinkFree.parallel`.
-/

namespace InPlace.Files

open Text.Path

/-- Where a path leads in a tree that stands at a place. -/
def Located.under (place : Place) : Located → Located
  | found p => found (place ++ p)
  | absent parent name => absent (place ++ parent) name

namespace Tree

variable {t t' u : Tree} {top top' p q d : Place} {n root root' path target : String} {ns : List String}
  {skipped : String → Bool} {walked : List Place} {links links' k : Nat} {pairs : List (Place × Place)}

/-- A tree stands at a place, and no link in it leads out of it: names lead below the place where they lead in the tree
alone. -/
structure Holds (t : Tree) (top : Place) (u : Tree) : Prop where
  tree : t.get? top = some u
  closed : ∀ links p ns, (∀ n ∈ ns, n ≠ "..") → t.locate links (top ++ p) ns = (u.locate links p ns).map (·.under top)

/-- The steps of a path lead up only if a name on it does. -/
theorem up_of_mem_pathSteps {m : String} (h : ∀ n ∈ pathNames path, n ≠ "..") (hm : m ∈ pathSteps path) : m ≠ ".." := by
  unfold pathSteps at hm
  split at hm
  · rcases List.mem_append.1 hm with hm | hm
    · exact h m hm
    · rw [List.mem_singleton.1 hm]
      decide
  · exact h m hm

/-! ## Steps below a place -/

section

variable (look : ∀ p, t.look? (top ++ p) = u.look? p)

include look

theorem look?_snoc_below (p : Place) (n : String) : t.look? (top ++ p ++ [n]) = u.look? (p ++ [n]) := by
  rw [List.append_assoc, look]

theorem Enters.below (h : u.Enters p n) : t.Enters (top ++ p) n :=
  ⟨(look p).trans h.dir, h.one, h.two, h.short⟩

theorem Halts.below {e : OsError} (s : u.Halts links p n e) : t.Halts links (top ++ p) n e := by
  cases s with
  | blocked other => exact .blocked ((look p).symm ▸ other)
  | long dir one two long => exact .long ((look p).trans dir) one two long
  | spent enters link => exact .spent (enters.below look) ((look?_snoc_below look p n).trans link)

/-- A step in the tree, if it is not up, is taken below as well. -/
theorem Advances.below {front : List String} (inward : ∀ p target, u.look? p = some (.link target) →
    isAbsolute target = false) (s : u.Advances links p n k q front) (up : n ≠ "..") :
    t.Advances links (top ++ p) n k (top ++ q) front := by
  cases s with
  | stay dir => exact .stay ((look p).trans dir)
  | up dir => exact absurd rfl up
  | link enters link =>
    have s : t.Advances (k + 1) (top ++ p) n k _ _ :=
      .link (enters.below look) ((look?_snoc_below look p n).trans link)
    rwa [inward _ _ link] at s ⊢
  | entry enters there other =>
    rw [← List.append_assoc]
    exact .entry (enters.below look) ((look?_snoc_below look p n).trans there) other

end

/-- If no link leads up, the names of a link that come before the rest do not. -/
theorem Advances.not_up {front : List String} (inward : ∀ p target, u.look? p = some (.link target) →
    ∀ n ∈ pathNames target, n ≠ "..") (s : u.Advances links p n k q front) : ∀ m ∈ front, m ≠ ".." := by
  cases s with
  | link enters link => exact fun m => up_of_mem_pathSteps (inward _ _ link)
  | stay dir | up dir | entry enters there other => exact fun _ hm => absurd hm List.not_mem_nil

/-! ## Links inside -/

namespace Holds

theorem get?_eq (h : t.Holds top u) (p : Place) : t.get? (top ++ p) = u.get? p := by
  rw [get?_append, h.tree]
  rfl

theorem look?_eq (h : t.Holds top u) (p : Place) : t.look? (top ++ p) = u.look? p := by
  rw [look?, h.get?_eq, look?]

theorem tidy (h : t.Holds top u) (ht : t.Tidy) : u.Tidy :=
  fun p es hp => ht (top ++ p) es ((h.get?_eq p).trans hp)

/-- Links that lead neither up nor to the top of the whole tree lead to no place outside. -/
theorem of_inward (tree : t.get? top = some u) (inward : ∀ p target, u.look? p = some (.link target) →
    isAbsolute target = false ∧ ∀ n ∈ pathNames target, n ≠ "..") : t.Holds top u where
  tree := tree
  closed links p ns up := by
    have look (p : Place) : t.look? (top ++ p) = u.look? p := by
      rw [look?, get?_append, tree, look?]
      rfl
    induction links, p, ns using u.step_induction with
    | nil links p =>
      rw [locate_nil, locate_nil]
      rfl
    | step s ih =>
      obtain ⟨first, later⟩ := List.forall_mem_cons.1 up
      rw [s.locate, (s.below look (fun p target link => (inward p target link).1) first).locate]
      have front := s.not_up fun p target link => (inward p target link).2
      exact ih (List.forall_mem_append.2 ⟨front, later⟩)
    | halt s =>
      rw [s.locate, (s.below look).locate]
      rfl
    | missing enters nothing =>
      rw [locate_missing enters nothing,
        locate_missing (enters.below look) ((look?_snoc_below look _ _).trans nothing)]
      split <;> rfl

end Holds

/-! ## Paths -/

/-- What a relative path leads to from a place. -/
def follow (t : Tree) (links : Nat) (top : Place) (path : String) : Except OsError Located :=
  if path.toList.contains '\x00' then .error .zeroInPath
  else t.locate links top (if path.isEmpty || endsInSlash path then pathNames path ++ ["."] else pathNames path)

/-- The path of a directory leads to a place, and leaves some links to be followed from there. -/
structure Reached (t : Tree) (root : String) (links : Nat) (top : Place) : Prop where
  absolute : isAbsolute root
  clean : Clean (pathNames root)
  goes : ∀ ns, t.locate maxLinks [] (pathNames root ++ ns) = t.locate links top ns

/-- A path that leads to a place reaches it with some links left. -/
theorem exists_reached (hb : isAbsolute root) (found : t.locatePath root = .ok (.found top)) :
    ∃ links, links ≤ maxLinks ∧ t.Reached root links top := by
  obtain ⟨clean, here⟩ := locate_pathNames found
  obtain ⟨links, fewer, goes⟩ := locate_append here
  exact ⟨links, fewer, hb, clean, goes⟩

/-- A relative path behind the path of a directory leads where it leads from the directory. -/
theorem Reached.locatePath_join (hr : t.Reached root links top) (relative : isAbsolute path = false) :
    t.locatePath (join root path) = t.follow links top path := by
  have names := pathNames_join root relative
  -- the path of the directory has no zero byte, or it would lead nowhere
  have zero : (join root path).toList.contains '\x00' = path.toList.contains '\x00' := by
    rw [Bool.eq_iff_iff, contains_zero, contains_zero, names]
    refine not_congr ⟨fun clean n hn => clean n (List.mem_append_right _ hn), fun clean n hn => ?_⟩
    exact (List.mem_append.1 hn).elim (hr.clean n) (clean n)
  rw [locatePath, follow, zero, isEmpty_join hr.absolute, pathSteps, names, endsInSlash_join hr.absolute relative]
  split
  · rfl
  · simp only [Bool.false_eq_true, if_false]
    split
    · rw [List.append_assoc, hr.goes]
    · rw [hr.goes]

/-! ## Going on alike -/

/-- Names that do not lead up lead on alike from two places, each with the links that are left there. -/
def LeadOnAlike (t t' : Tree) (pairs : List (Place × Place)) (links links' : Nat) (top top' : Place) : Prop :=
  ∀ ns, (∀ n ∈ ns, n ≠ "..") → LeadAlike pairs (placeOf? (t.locate links top ns)) (placeOf? (t'.locate links' top' ns))

/-- Relative paths that do not lead up lead alike behind the paths of two directories, if names lead on alike from
these. -/
theorem Reached.leadAlike (hr : t.Reached root links top) (hr' : t'.Reached root' links' top')
    (alike : LeadOnAlike t t' pairs links links' top top') (relative : isAbsolute path = false)
    (up : ∀ n ∈ pathNames path, n ≠ "..") :
    LeadAlike pairs (t.placeAt? (join root path)) (t'.placeAt? (join root' path)) := by
  rw [placeAt?, placeAt?, hr.locatePath_join relative, hr'.locatePath_join relative, follow, follow]
  split
  · exact .nowhere
  · split
    · refine alike _ fun n hn => ?_
      rcases List.mem_append.1 hn with hn | hn
      · exact up n hn
      · rw [List.mem_singleton.1 hn]
        decide
    · exact alike _ up

/-- The names by which a walk comes to a directory can be names of files. -/
theorem Visits.proper (h : t.Visits skipped path p ns walked d) (ht : t.Tidy) : ∀ n ∈ ns, Proper n := by
  induction h with
  | here => exact fun n hn => absurd hn List.not_mem_nil
  | step way came dir fresh kept ih =>
    exact List.forall_mem_append.2 ⟨ih, List.forall_mem_singleton.2 (ht.proper (mem_entryNames_of_comesTo? came))⟩

/-- Where names lead on alike walks are abreast. -/
theorem Reached.parallel (ht : t.Tidy) (hr : t.Reached root links top) (hr' : t'.Reached root' links' top')
    (alike : LeadOnAlike t t' pairs links links' top top') (relative : isAbsolute target = false)
    (up : ∀ n ∈ pathNames target, n ≠ "..") : Parallel t t' pairs skipped (join root target) (join root' target) where
  start := hr.leadAlike hr' alike relative up
  links p ns walked d n link found visits look := by
    have listed : n ∈ t.entryNames d := mem_entryNames.2 (look ▸ Option.some_ne_none _)
    have proper : ∀ m ∈ ns ++ [n], Proper m :=
      List.forall_mem_append.2 ⟨visits.proper ht, List.forall_mem_singleton.2 (ht.proper listed)⟩
    have plain : ∀ m ∈ ns ++ [n], Plain m := fun m hm => (proper m hm).toPlain
    obtain ⟨whole, relative'⟩ := joins_join hr.absolute relative plain
    rw [whole, (joins_join hr'.absolute relative plain).1]
    refine hr.leadAlike hr' alike relative' fun m hm => ?_
    rw [pathNames_joins target proper] at hm
    exact (List.mem_append.1 hm).elim (up m) fun hm => (proper m hm).up

/-- Walks through a directory that is reached in two ways are abreast, if no path in it needs the links by which one of the
ways has more of them left. -/
theorem Reached.parallel_self (ht : t.Tidy) (hr : t.Reached root links top) (hr' : t.Reached root' links' top)
    (enough : ∀ ns, (∀ n ∈ ns, n ≠ "..") →
      placeOf? (t.locate links top ns) = placeOf? (t.locate links' top ns))
    (relative : isAbsolute target = false) (up : ∀ n ∈ pathNames target, n ≠ "..") :
    Sharing t t [([], [])] ∧ Parallel t t [([], [])] skipped (join root target) (join root' target) := by
  refine ⟨sharing_singleton rfl, ?_⟩
  refine hr.parallel ht hr' (fun ns plain => ?_) relative up
  rw [enough ns plain]
  cases placeOf? (t.locate links' top ns) with
  | none => exact .nowhere
  | some p => exact .there (.of_mem (List.mem_singleton_self _) p)

namespace Holds

/-- Walks through two places at which the same tree stands are abreast, if no link leads out of the tree and names lead to
the same place in it with the links that are left on both sides. -/
theorem parallel (ht : t.Tidy) (h : t.Holds top u) (h' : t'.Holds top' u) (hr : t.Reached root links top)
    (hr' : t'.Reached root' links' top') (enough : ∀ ns, (∀ n ∈ ns, n ≠ "..") →
      placeOf? (u.locate links [] ns) = placeOf? (u.locate links' [] ns))
    (relative : isAbsolute target = false) (up : ∀ n ∈ pathNames target, n ≠ "..") :
    Sharing t t' [(top, top')] ∧ Parallel t t' [(top, top')] skipped (join root target) (join root' target) := by
  refine ⟨sharing_singleton (h.tree.trans h'.tree.symm), ?_⟩
  have under (place : Place) (l : Except OsError Located) :
      placeOf? (l.map (·.under place)) = (placeOf? l).map (place ++ ·) := by
    cases l with
    | error e => rfl
    | ok l => cases l <;> rfl
  refine hr.parallel ht hr' (fun ns plain => ?_) relative up
  have left := h.closed links [] ns plain
  have right := h'.closed links' [] ns plain
  rw [List.append_nil] at left right
  rw [left, right, under, under, enough ns plain]
  cases placeOf? (u.locate links' [] ns) with
  | none => exact .nowhere
  | some p => exact .there (.of_mem (List.mem_singleton_self _) p)

end Holds

/-- Without links it does not matter how many may be followed. -/
theorem LinkFree.locate_eq (free : u.LinkFree []) (links links' : Nat) (p : Place) (ns : List String) :
    u.locate links p ns = u.locate links' p ns := by
  have noLink (q : Place) (target : String) : u.look? q ≠ some (.link target) := free q target
  induction links, p, ns using u.step_induction with
  | nil links p => rw [locate_nil, locate_nil]
  | step s ih =>
    rw [s.locate, ih]
    cases s with
    | stay dir => exact ((Advances.stay dir).locate _).symm
    | up dir => exact ((Advances.up dir).locate _).symm
    | link enters look => exact absurd look (noLink _ _)
    | entry enters look other => exact ((Advances.entry enters look other).locate _).symm
  | halt s =>
    rw [s.locate]
    cases s with
    | blocked other => exact ((Halts.blocked other).locate _).symm
    | long dir one two long => exact ((Halts.long dir one two long).locate _).symm
    | spent enters look => exact absurd look (noLink _ _)
  | missing enters nothing => rw [locate_missing enters nothing, locate_missing enters nothing]

/-- Walks through two places at which the same tree stands are abreast, if there is no link in that. -/
theorem LinkFree.parallel (free : u.LinkFree []) (ht : t.Tidy) (tree : t.get? top = some u) (tree' : t'.get? top' = some u)
    (hr : isAbsolute root) (hr' : isAbsolute root') (found : t.locatePath root = .ok (.found top))
    (found' : t'.locatePath root' = .ok (.found top')) (relative : isAbsolute target = false)
    (up : ∀ n ∈ pathNames target, n ≠ "..") :
    Sharing t t' [(top, top')] ∧ Parallel t t' [(top, top')] skipped (join root target) (join root' target) := by
  have holds {v : Tree} {place : Place} (tree : v.get? place = some u) : v.Holds place u :=
    .of_inward tree fun p target link => absurd link (free p target)
  obtain ⟨links, -, reached⟩ := exists_reached hr found
  obtain ⟨links', -, reached'⟩ := exists_reached hr' found'
  refine (holds tree).parallel ht (holds tree') reached reached' (fun ns _ => ?_) relative up
  rw [free.locate_eq links links']

end Tree

end InPlace.Files

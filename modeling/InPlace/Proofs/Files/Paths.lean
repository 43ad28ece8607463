import InPlace.Files.Disk
import InPlace.Proofs.Text.Pieces
import Mathlib.Data.List.Infix

/-!
# Names on paths

An absolute path is as good as the list of its names. Paths are put together, taken apart and cut off at a base as
texts; here each of these is said for the lists.

Main statements: `components_eq`, `pathNames_join`, `ancestorsOf_drop` and `stripBase?_eq_joined`.
-/

namespace InPlace.Files

open Text Text.Path

/-! ## Names in a text -/

/-- What can stand between the slashes of a path and count. -/
structure Plain (name : String) : Prop where
  nonempty : name ≠ ""
  slash : '/' ∉ name.toList
  here : name ≠ "."

/-- What can be the name of a file. -/
structure Proper (name : String) : Prop extends Plain name where
  up : name ≠ ".."
  zero : '\x00' ∉ name.toList

instance (name : String) : Decidable (Proper name) :=
  decidable_of_iff (name ≠ "" ∧ '/' ∉ name.toList ∧ name ≠ "." ∧ name ≠ ".." ∧ '\x00' ∉ name.toList)
    ⟨fun ⟨nonempty, slash, here, up, zero⟩ => ⟨⟨nonempty, slash, here⟩, up, zero⟩,
      fun h => ⟨h.nonempty, h.slash, h.here, h.up, h.zero⟩⟩

/-- The names in a text. -/
def namesIn (cs : List Char) : List String :=
  ((splitAt '/' cs).filter fun part => !part.isEmpty).map String.ofList

theorem pathNames_eq (path : String) : pathNames path = namesIn path.toList :=
  rfl

theorem namesIn_sep (cs ds : List Char) : namesIn (cs ++ '/' :: ds) = namesIn cs ++ namesIn ds := by
  rw [namesIn, splitAt_sep, List.filter_append, List.map_append]
  rfl

theorem namesIn_slash (cs : List Char) : namesIn ('/' :: cs) = namesIn cs :=
  namesIn_sep [] cs

theorem namesIn_of_not_mem {cs : List Char} (slash : '/' ∉ cs) (nonempty : cs ≠ []) : namesIn cs = [String.ofList cs] := by
  rw [namesIn, splitAt_of_not_mem slash]
  cases cs with
  | nil => exact absurd rfl nonempty
  | cons c cs => rfl

/-- No name is empty, and none holds a slash. -/
theorem of_mem_namesIn {cs : List Char} {name : String} (h : name ∈ namesIn cs) : name ≠ "" ∧ '/' ∉ name.toList := by
  obtain ⟨part, hpart, rfl⟩ := List.mem_map.1 h
  obtain ⟨mem, nonempty⟩ := List.mem_filter.1 hpart
  rw [String.toList_ofList]
  refine ⟨fun empty => ?_, not_mem_of_mem_splitAt mem⟩
  rw [← String.toList_inj, String.toList_ofList] at empty
  rw [empty] at nonempty
  cases nonempty

/-- What is no slash is in a name. -/
theorem mem_namesIn {c : Char} (hc : c ≠ '/') {cs : List Char} : c ∈ cs ↔ ∃ n ∈ namesIn cs, c ∈ n.toList := by
  rw [mem_splitAt hc]
  constructor
  · rintro ⟨part, hpart, mem⟩
    have nonempty : (!part.isEmpty) = true := by
      cases part with
      | nil => cases mem
      | cons d part => rfl
    exact ⟨_, List.mem_map_of_mem (List.mem_filter.2 ⟨hpart, nonempty⟩), by rwa [String.toList_ofList]⟩
  · rintro ⟨n, hn, mem⟩
    obtain ⟨part, hpart, rfl⟩ := List.mem_map.1 hn
    rw [String.toList_ofList] at mem
    exact ⟨part, (List.mem_filter.1 hpart).1, mem⟩

/-- Names with slashes between them. -/
def joined (names : List String) : String :=
  "/".intercalate names

theorem joined_singleton (name : String) : joined [name] = name :=
  String.intercalate_singleton

theorem toList_joined_cons (name next : String) (names : List String) :
    (joined (name :: next :: names)).toList = name.toList ++ '/' :: (joined (next :: names)).toList := by
  rw [joined, String.intercalate_cons_cons, String.toList_append, String.toList_append, List.append_assoc]
  rfl

/-- The last name comes behind a slash. -/
theorem joined_snoc {names : List String} (h : names ≠ []) (name : String) :
    joined (names ++ [name]) = joined names ++ "/" ++ name := by
  induction names with
  | nil => exact absurd rfl h
  | cons first names ih =>
    cases names with
    | nil => rw [joined_singleton]; rfl
    | cons next names =>
      have rest := ih (List.cons_ne_nil _ _)
      unfold joined at rest ⊢
      rw [List.cons_append, List.cons_append, String.intercalate_cons_cons, String.intercalate_cons_cons,
        ← List.cons_append, rest]
      simp only [String.append_assoc]

/-- What comes behind the names comes behind the last one. -/
theorem joined_append (names : List String) (name more : String) :
    joined (names ++ [name]) ++ more = joined (names ++ [name ++ more]) := by
  by_cases h : names = []
  · rw [h, List.nil_append, List.nil_append, joined_singleton, joined_singleton]
  · rw [joined_snoc h, joined_snoc h, String.append_assoc]

/-- Names are read back from the text in which they are joined. -/
theorem namesIn_joined {names : List String} (h : ∀ n ∈ names, Plain n) : namesIn (joined names).toList = names := by
  induction names with
  | nil => rfl
  | cons name names ih =>
    have first := h name List.mem_cons_self
    have nonempty : name.toList ≠ [] := fun hn => first.nonempty (String.toList_inj.1 hn)
    have self : namesIn name.toList = [name] := by
      rw [namesIn_of_not_mem first.slash nonempty, String.ofList_toList]
    cases names with
    | nil => rw [joined_singleton, self]
    | cons next names =>
      rw [toList_joined_cons, namesIn_sep, self, ih fun n hn => h n (List.mem_cons_of_mem _ hn)]
      rfl

theorem pathNames_joined {names : List String} (h : ∀ n ∈ names, Plain n) : pathNames (joined names) = names :=
  namesIn_joined h

/-! ## Absolute paths -/

/-- The component that a name stands for; a single dot stands for none. -/
def component? (name : String) : Option Component :=
  if name = "." then none else if name = ".." then some .parent else some (.normal name.toList)

/-- A text is what stands in front of its first slash, then the slash and what follows, if there is one. -/
theorem splitSlash_spec (cs : List Char) : '/' ∉ (splitSlash cs).1 ∧
    (cs = (splitSlash cs).1 ∧ (splitSlash cs).2 = [] ∨ cs = (splitSlash cs).1 ++ '/' :: (splitSlash cs).2) := by
  induction cs with
  | nil => exact ⟨List.not_mem_nil, .inl ⟨rfl, rfl⟩⟩
  | cons c cs ih =>
    by_cases hc : c = '/'
    · subst hc
      exact ⟨List.not_mem_nil, .inr rfl⟩
    · have take : (splitSlash (c :: cs)).1 = c :: (splitSlash cs).1 := by simp [splitSlash, hc]
      have drop : (splitSlash (c :: cs)).2 = (splitSlash cs).2 := by simp [splitSlash, hc]
      rw [take, drop]
      refine ⟨fun hmem => ?_, ih.2.imp (fun h => ⟨congrArg _ h.1, h.2⟩) (congrArg _)⟩
      rcases List.mem_cons.1 hmem with h | h
      · exact hc h.symm
      · exact ih.1 h

theorem splitSlash_sep {first : List Char} (h : '/' ∉ first) (rest : List Char) :
    splitSlash (first ++ '/' :: rest) = (first, rest) := by
  have others : ∀ c ∈ first, (c != '/') = true := fun c hc => bne_iff_ne.2 fun same => h (same ▸ hc)
  rw [splitSlash, List.takeWhile_append_of_pos others, List.dropWhile_append_of_pos others]
  simp

/-- The first name comes first, then those behind the first slash. -/
theorem namesIn_splitSlash (cs : List Char) : namesIn cs =
    (if (splitSlash cs).1 = [] then [] else [String.ofList (splitSlash cs).1]) ++ namesIn (splitSlash cs).2 := by
  obtain ⟨slash, whole⟩ := splitSlash_spec cs
  have first : namesIn (splitSlash cs).1 =
      if (splitSlash cs).1 = [] then [] else [String.ofList (splitSlash cs).1] := by
    split
    · rename_i empty
      rw [empty]
      rfl
    · rename_i nonempty
      exact namesIn_of_not_mem slash nonempty
  rw [← first]
  rcases whole with ⟨all, rest⟩ | whole
  · rw [rest, ← all]
    exact (List.append_nil _).symm
  · rw [← namesIn_sep, ← whole]

theorem toList_of_isAbsolute {path : String} (h : isAbsolute path) : ∃ cs, path.toList = '/' :: cs := by
  unfold isAbsolute at h
  cases hp : path.toList with
  | nil =>
    rw [hp] at h
    cases h
  | cons c cs =>
    rw [hp] at h
    have same : c = '/' := by simpa using h
    exact ⟨cs, by rw [same]⟩

theorem body_up {c : Char} {cs : List Char} (h : (splitSlash (c :: cs)).1 = ['.', '.']) :
    body (c :: cs) = (.parent, (splitSlash (c :: cs)).2) :: body (splitSlash (c :: cs)).2 := by
  rw [body, h]
  rfl

theorem body_name {c : Char} {cs : List Char} (empty : (splitSlash (c :: cs)).1 ≠ [])
    (here : (splitSlash (c :: cs)).1 ≠ ['.']) (up : (splitSlash (c :: cs)).1 ≠ ['.', '.']) :
    body (c :: cs) = (.normal (splitSlash (c :: cs)).1, (splitSlash (c :: cs)).2) :: body (splitSlash (c :: cs)).2 := by
  rw [body]
  split
  · exact absurd ‹_› empty
  · exact absurd ‹_› here
  · exact absurd ‹_› up
  · rfl

/-- The components behind the beginning of a path are its names. -/
theorem map_fst_body (cs : List Char) : (body cs).map Prod.fst = (namesIn cs).filterMap component? := by
  -- the cases of the recursion: the end, an empty name, a dot, two dots, any other name
  induction cs using body.induct with
  | case1 => simp [body, namesIn, splitAt, splitWith]
  | case2 c cs rest first ih =>
    rw [body, first, namesIn_splitSlash, first]
    exact ih
  | case3 c cs rest first ih =>
    rw [body, first, namesIn_splitSlash, first]
    exact ih
  | case4 c cs rest first ih =>
    rw [body, first, namesIn_splitSlash, first]
    exact congrArg _ ih
  | case5 c cs rest empty here up ih =>
    have name : component? (String.ofList (splitSlash (c :: cs)).1) = some (.normal (splitSlash (c :: cs)).1) := by
      have one : String.ofList (splitSlash (c :: cs)).1 ≠ "." := fun same =>
        here (by rw [← String.toList_ofList (l := (splitSlash (c :: cs)).1), same]; rfl)
      have two : String.ofList (splitSlash (c :: cs)).1 ≠ ".." := fun same =>
        up (by rw [← String.toList_ofList (l := (splitSlash (c :: cs)).1), same]; rfl)
      rw [component?, if_neg one, if_neg two, String.toList_ofList]
    rw [body_name empty here up, namesIn_splitSlash, if_neg empty, List.map_cons, List.singleton_append,
      List.filterMap_cons_some name, ih]

/-- The components of an absolute path. -/
theorem components_eq {path : String} (h : isAbsolute path) :
    components path = .root :: (pathNames path).filterMap component? := by
  obtain ⟨cs, hcs⟩ := toList_of_isAbsolute h
  rw [components, pathNames_eq, hcs, namesIn_slash, ← map_fst_body]
  rfl

/-- The names on a path that count. -/
def plainNames (path : String) : List String :=
  (pathNames path).filter (· ≠ ".")

theorem plain_of_mem_plainNames {path name : String} (h : name ∈ plainNames path) : Plain name := by
  obtain ⟨mem, here⟩ := List.mem_filter.1 h
  obtain ⟨nonempty, slash⟩ := of_mem_namesIn mem
  exact ⟨nonempty, slash, of_decide_eq_true here⟩

/-- The component that a name stands for is written as the name. -/
theorem text_of_component? {name : String} {c : Component} (h : component? name = some c) :
    Text.Path.Component.text c = name := by
  unfold component? at h
  split at h
  · cases h
  · split at h
    · rename_i up
      cases h
      exact up.symm
    · cases h
      exact String.ofList_toList

/-- Components are written as the names that stand for them, without single dots. -/
theorem map_text_components (names : List String) :
    (names.filterMap component?).map Text.Path.Component.text = names.filter (· ≠ ".") := by
  induction names with
  | nil => rfl
  | cons name names ih =>
    by_cases here : name = "."
    · subst here
      exact ih
    · obtain ⟨c, hc⟩ : ∃ c, component? name = some c := by
        unfold component?
        rw [if_neg here]
        split
        · exact ⟨_, rfl⟩
        · exact ⟨_, rfl⟩
      rw [List.filterMap_cons_some hc, List.map_cons, text_of_component? hc, ih,
        List.filter_cons_of_pos (by simp only [ne_eq, here, not_false_eq_true, decide_true])]

/-- Single dots stand for no component. -/
theorem filterMap_component?_filter (names : List String) :
    (names.filter (· ≠ ".")).filterMap component? = names.filterMap component? := by
  rw [List.filterMap_filter]
  refine List.filterMap_congr fun name _ => ?_
  split
  · rfl
  · rename_i here
    have dot : name = "." := by simpa using here
    rw [dot]
    rfl

/-- The texts of the components of an absolute path. -/
theorem names_eq {path : String} (h : isAbsolute path) : names path = "" :: plainNames path := by
  rw [names, components_eq h, List.map_cons, map_text_components]
  rfl

/-- The path from the top with these names. -/
def fromTop (names : List String) : String :=
  "/" ++ joined names

theorem isAbsolute_fromTop (names : List String) : isAbsolute (fromTop names) := by
  simp [isAbsolute, fromTop]

theorem pathNames_fromTop {names : List String} (h : ∀ n ∈ names, Plain n) : pathNames (fromTop names) = names := by
  rw [pathNames_eq, fromTop, String.toList_append]
  show namesIn ('/' :: (joined names).toList) = names
  rw [namesIn_slash, namesIn_joined h]

theorem plainNames_fromTop {names : List String} (h : ∀ n ∈ names, Plain n) : plainNames (fromTop names) = names := by
  rw [plainNames, pathNames_fromTop h]
  exact List.filter_eq_self.2 fun n hn => decide_eq_true (h n hn).here

/-- What is above an absolute path. -/
theorem parent?_eq {path : String} (h : isAbsolute path) :
    parent? path = if plainNames path = [] then none else some (fromTop (plainNames path).dropLast) := by
  have texts := map_text_components (pathNames path)
  unfold parent?
  rw [components_eq h]
  cases hc : (pathNames path).filterMap component? with
  | nil =>
    rw [hc] at texts
    have empty : plainNames path = [] := texts.symm
    rw [if_pos empty]
  | cons first rest =>
    rw [hc] at texts
    have nonempty : plainNames path ≠ [] := by
      rw [plainNames, ← texts]
      exact List.cons_ne_nil _ _
    rw [if_neg nonempty, plainNames, ← texts, ← List.map_dropLast]
    cases rest with
    | nil => rfl
    | cons second rest =>
      show some ("/".intercalate ("" :: Text.Path.Component.text first :: (second :: rest).dropLast.map _)) = _
      rw [String.intercalate_cons_cons, String.empty_append]
      rfl

/-- The paths from the top with these names and with fewer of them, the longest first. -/
def above (names : List String) : List String :=
  names.inits.reverse.map fromTop

theorem above_snoc (names : List String) (name : String) :
    above (names ++ [name]) = fromTop (names ++ [name]) :: above names := by
  rw [above, List.inits_append]
  simp [above]

/-- The directories above an absolute path are those with fewer of its names. -/
theorem go_fromTop {names : List String} (h : ∀ n ∈ names, Plain n) :
    ancestorsOf.go (names.length + 1) (fromTop names) = above names := by
  induction names using List.reverseRecOn with
  | nil => rw [List.length_nil, ancestorsOf.go, parent?_eq (isAbsolute_fromTop _), plainNames_fromTop h, if_pos rfl]; rfl
  | append_singleton names name ih =>
    have fewer : ∀ n ∈ names, Plain n := fun n hn => h n (List.mem_append_left _ hn)
    rw [List.length_append, ancestorsOf.go, parent?_eq (isAbsolute_fromTop _), plainNames_fromTop h, if_neg (by simp),
      List.dropLast_concat, above_snoc]
    exact congrArg _ (ih fewer)

/-- The paths above an absolute path. -/
theorem ancestorsOf_drop {path name : String} {names : List String} (h : isAbsolute path)
    (hn : plainNames path = names ++ [name]) : (ancestorsOf path).drop 1 = above names := by
  have plain : ∀ n ∈ names, Plain n := fun n hm => plain_of_mem_plainNames (hn ▸ List.mem_append_left _ hm)
  have length : (components path).length = names.length + 2 := by
    have := congrArg List.length (names_eq h)
    rw [Text.Path.names, List.length_map, hn] at this
    simpa using this
  rw [ancestorsOf, length, ancestorsOf.go, parent?_eq h, if_neg (by rw [hn]; simp), hn, List.dropLast_concat]
  exact go_fromTop plain

/-! ## Paths that are put together -/

theorem isEmpty_of_isAbsolute {path : String} (h : isAbsolute path) : path.isEmpty = false := by
  rw [Bool.eq_false_iff]
  intro empty
  obtain ⟨cs, hcs⟩ := toList_of_isAbsolute h
  rw [String.isEmpty_iff.1 empty] at hcs
  cases hcs

/-- A relative path has its names behind those of the base. -/
theorem pathNames_join (base : String) {path : String} (h : isAbsolute path = false) :
    pathNames (join base path) = pathNames base ++ pathNames path := by
  unfold join
  rw [h]
  simp only [Bool.false_eq_true, if_false, Bool.or_eq_true]
  split
  · rename_i slash
    rw [pathNames_eq, pathNames_eq base, pathNames_eq path, String.toList_append]
    rcases slash with empty | slash
    · rw [String.isEmpty_iff.1 empty]
      rfl
    · obtain ⟨cs, hcs⟩ : ∃ cs, base.toList = cs ++ ['/'] :=
        List.getLast?_eq_some_iff.1 (by simpa [endsInSlash] using slash)
      rw [hcs, List.append_assoc, List.singleton_append, namesIn_sep, namesIn_sep]
      exact congrArg (· ++ _) (List.append_nil _).symm
  · rw [pathNames_eq, pathNames_eq base, pathNames_eq path, String.toList_append, String.toList_append,
      List.append_assoc]
    exact namesIn_sep _ _

/-- A relative path comes behind a slash, which may be there already. -/
theorem toList_join {path : String} (base : String) (h : isAbsolute path = false) (hb : isAbsolute base) :
    ∃ front, base.toList = '/' :: front ∧
      ((join base path).toList = '/' :: (front ++ path.toList) ∧ (front = [] ∨ ∃ cs, front = cs ++ ['/']) ∨
        (join base path).toList = '/' :: (front ++ '/' :: path.toList)) := by
  obtain ⟨front, hfront⟩ := toList_of_isAbsolute hb
  refine ⟨front, hfront, ?_⟩
  unfold join
  rw [h, isEmpty_of_isAbsolute hb]
  simp only [Bool.false_eq_true, if_false, Bool.false_or]
  split
  · rename_i slash
    refine .inl ⟨by rw [String.toList_append, hfront]; rfl, ?_⟩
    rcases List.eq_nil_or_concat' front with rfl | ⟨cs, c, rfl⟩
    · exact .inl rfl
    · refine .inr ⟨cs, ?_⟩
      rw [endsInSlash, hfront, ← List.cons_append, List.getLast?_concat] at slash
      have same : c = '/' := by simpa using slash
      rw [same]
  · refine .inr ?_
    rw [String.toList_append, String.toList_append, hfront, List.append_assoc]
    rfl

/-- What is joined to an absolute path is absolute. -/
theorem isAbsolute_join {base path : String} (h : isAbsolute base) : isAbsolute (join base path) := by
  cases hp : isAbsolute path with
  | true =>
    unfold join
    rw [if_pos hp]
    exact hp
  | false =>
    obtain ⟨front, -, h | h⟩ := toList_join base hp h
    · rw [isAbsolute, h.1]
      rfl
    · rw [isAbsolute, h]
      rfl

theorem Plain.isAbsolute_eq {name : String} (h : Plain name) : isAbsolute name = false := by
  unfold isAbsolute
  cases hn : name.toList with
  | nil => rfl
  | cons c cs =>
    have other : c ≠ '/' := fun same => h.slash (by rw [hn, same]; exact List.mem_cons_self)
    simpa using other

/-- A relative path stays one, whatever comes behind it. -/
theorem isAbsolute_append {path : String} (h : isAbsolute path = false) (hn : path ≠ "") (rest : String) :
    isAbsolute (path ++ rest) = false := by
  unfold isAbsolute at h ⊢
  rw [String.toList_append]
  cases hp : path.toList with
  | nil => exact absurd (String.toList_inj.1 hp) hn
  | cons c cs =>
    rw [hp] at h
    exact h

/-- Plain names make a relative path. -/
theorem isAbsolute_joined {names : List String} (h : ∀ n ∈ names, Plain n) : isAbsolute (joined names) = false := by
  cases names with
  | nil => rfl
  | cons name names =>
    have first := h name List.mem_cons_self
    cases names with
    | nil => exact (joined_singleton name).symm ▸ first.isAbsolute_eq
    | cons next names =>
      rw [joined, String.intercalate_cons_cons, String.append_assoc]
      exact isAbsolute_append first.isAbsolute_eq first.nonempty _

/-- What comes behind a relative path comes behind it joined. -/
theorem join_append {path : String} (base : String) (h : isAbsolute path = false) (hn : path ≠ "") (rest : String) :
    join base (path ++ rest) = join base path ++ rest := by
  unfold join
  rw [h, isAbsolute_append h hn]
  simp only [Bool.false_eq_true, if_false]
  split
  · rw [String.append_assoc]
  · rw [String.append_assoc, String.append_assoc, String.append_assoc]

/-- A path that ends in a plain name does not end in a slash. -/
theorem Plain.endsInSlash_eq {name : String} (h : Plain name) (front : String) : endsInSlash (front ++ name) = false := by
  unfold endsInSlash
  rw [String.toList_append]
  rcases List.eq_nil_or_concat' name.toList with hn | ⟨cs, c, hn⟩
  · exact absurd (String.toList_inj.1 hn) h.nonempty
  · have other : c ≠ '/' := fun same => h.slash (by rw [hn, same]; exact List.mem_append_right _ List.mem_cons_self)
    rw [hn, ← List.append_assoc, List.getLast?_concat]
    simpa using other

/-- Behind a name a relative path comes with a slash. -/
theorem join_join {name path : String} (base : String) (h : Plain name) (hp : isAbsolute path = false) :
    join (join base name) path = join base (name ++ "/" ++ path) := by
  rw [String.append_assoc, join_append base h.isAbsolute_eq h.nonempty, ← String.append_assoc]
  have nonempty : (join base name).isEmpty = false := by
    rw [Bool.eq_false_iff]
    intro empty
    have none := String.isEmpty_iff.1 empty
    unfold join at none
    rw [h.isAbsolute_eq] at none
    simp only [Bool.false_eq_true, if_false] at none
    split at none
    · exact h.nonempty (String.append_eq_empty_iff.1 none).2
    · exact h.nonempty (String.append_eq_empty_iff.1 none).2
  have slash : endsInSlash (join base name) = false := by
    unfold join
    rw [h.isAbsolute_eq]
    simp only [Bool.false_eq_true, if_false]
    split
    · exact h.endsInSlash_eq _
    · exact h.endsInSlash_eq _
  rw [join, hp, nonempty, slash]
  rfl

/-- The last of the names ends the path. -/
theorem exists_join_eq (base : String) {names : List String} {name : String} (h : ∀ n ∈ names ++ [name], Plain n) :
    ∃ front, join base (joined (names ++ [name])) = front ++ name := by
  have whole : ∃ front, joined (names ++ [name]) = front ++ name := by
    by_cases one : names = []
    · exact ⟨"", by rw [one, List.nil_append, joined_singleton, String.empty_append]⟩
    · exact ⟨_, joined_snoc one name⟩
  obtain ⟨front, whole⟩ := whole
  unfold join
  rw [isAbsolute_joined h]
  simp only [Bool.false_eq_true, if_false]
  split
  · exact ⟨base ++ front, by rw [whole, String.append_assoc]⟩
  · exact ⟨base ++ "/" ++ front, by rw [whole]; simp only [String.append_assoc]⟩

/-- One name after the other is joined to a path. -/
def joins (path : String) (names : List String) : String :=
  names.foldl join path

/-- Names are joined to a path one by one as they are all together. -/
theorem joins_eq {path : String} {names : List String} (h : ∀ n ∈ names, Plain n) (hn : names ≠ []) :
    joins path names = join path (joined names) := by
  induction names generalizing path with
  | nil => exact absurd rfl hn
  | cons name names ih =>
    cases names with
    | nil => rw [joined_singleton]; rfl
    | cons next names =>
      have first := h name List.mem_cons_self
      have rest : ∀ n ∈ next :: names, Plain n := fun n hm => h n (List.mem_cons_of_mem _ hm)
      show joins (join path name) (next :: names) = _
      rw [ih rest (List.cons_ne_nil _ _), join_join path first (isAbsolute_joined rest), joined, joined,
        String.intercalate_cons_cons]

/-- Only the end of a text decides whether a slash ends it. -/
theorem endsInSlash_append (front : String) {path : String} (h : path ≠ "") :
    endsInSlash (front ++ path) = endsInSlash path := by
  unfold endsInSlash
  rw [String.toList_append]
  rcases List.eq_nil_or_concat' path.toList with hp | ⟨cs, c, hp⟩
  · exact absurd (String.toList_inj.1 hp) h
  · rw [hp, ← List.append_assoc, List.getLast?_concat, List.getLast?_concat]

/-- A slash ends a path that is joined if it ends what is joined, or if that is nothing. -/
theorem endsInSlash_join {base path : String} (hb : isAbsolute base) (h : isAbsolute path = false) :
    endsInSlash (join base path) = (path.isEmpty || endsInSlash path) := by
  by_cases empty : path = ""
  · subst empty
    obtain ⟨front, -, ⟨whole, rfl | ⟨cs, rfl⟩⟩ | whole⟩ := toList_join base h hb
    · rw [endsInSlash, whole]
      rfl
    · rw [endsInSlash, whole, String.toList_empty, List.append_nil, ← List.cons_append, List.getLast?_concat]
      rfl
    · rw [endsInSlash, whole, String.toList_empty, ← List.cons_append, List.getLast?_concat]
      rfl
  · have nonempty : path.isEmpty = false := Bool.eq_false_iff.2 fun none => empty (String.isEmpty_iff.1 none)
    rw [nonempty, Bool.false_or, join, h]
    simp only [Bool.false_eq_true, if_false]
    split
    · exact endsInSlash_append _ empty
    · exact endsInSlash_append _ empty

theorem isEmpty_join {base path : String} (hb : isAbsolute base) : (join base path).isEmpty = false :=
  isEmpty_of_isAbsolute (isAbsolute_join hb)

theorem isAbsolute_join_relative {path rest : String} (h : isAbsolute path = false) (hr : isAbsolute rest = false) :
    isAbsolute (join path rest) = false := by
  by_cases empty : path = ""
  · subst empty
    rw [join, hr]
    exact hr
  · rw [join, hr]
    simp only [Bool.false_eq_true, if_false]
    split
    · exact isAbsolute_append h empty _
    · rw [String.append_assoc]
      exact isAbsolute_append h empty _

/-- Relative paths may be joined to each other first. -/
theorem join_assoc {base path rest : String} (hb : isAbsolute base) (h : isAbsolute path = false)
    (hr : isAbsolute rest = false) : join (join base path) rest = join base (join path rest) := by
  have slash := endsInSlash_join hb h
  have nonempty := @isEmpty_join base path hb
  -- an empty path adds a slash at the most, and the next path would have added the same one
  by_cases empty : path = ""
  · subst empty
    have whole : join "" rest = rest := by
      rw [join, hr]
      exact String.empty_append
    rw [whole, join, hr, slash, nonempty]
    show join base "" ++ rest = _
    unfold join
    rw [hr, h, isEmpty_of_isAbsolute hb]
    simp only [Bool.false_eq_true, if_false, Bool.false_or]
    split
    · rw [String.append_empty]
    · rw [String.append_empty]
  · have given : path.isEmpty = false := Bool.eq_false_iff.2 fun none => empty (String.isEmpty_iff.1 none)
    rw [given, Bool.false_or] at slash
    rw [join, hr, nonempty, slash]
    rw [show join path rest = if endsInSlash path then path ++ rest else path ++ "/" ++ rest from by
      rw [join, hr, given]; rfl]
    simp only [Bool.false_eq_true, if_false, Bool.false_or]
    split
    · exact (join_append base h empty rest).symm
    · rw [String.append_assoc, String.append_assoc]
      exact (join_append base h empty _).symm

/-- Names may be joined to a relative path first. -/
theorem joins_join {base path : String} {names : List String} (hb : isAbsolute base) (h : isAbsolute path = false)
    (hn : ∀ n ∈ names, Plain n) :
    joins (join base path) names = join base (joins path names) ∧ isAbsolute (joins path names) = false := by
  induction names generalizing path with
  | nil => exact ⟨rfl, h⟩
  | cons name names ih =>
    have first := (hn name List.mem_cons_self).isAbsolute_eq
    obtain ⟨whole, relative⟩ := ih (isAbsolute_join_relative h first) fun n hm => hn n (List.mem_cons_of_mem _ hm)
    refine ⟨?_, relative⟩
    show joins (join (join base path) name) names = join base (joins (join path name) names)
    rw [join_assoc hb h first, whole]

/-! ## What is left behind a base -/

/-- Nothing is trimmed in front of a name. -/
theorem trimFront_joined {name : List Char} (hs : '/' ∉ name) (hn : name ≠ []) (hd : name ≠ ['.']) {cs : List Char}
    (h : cs = name ∨ ∃ rest, cs = name ++ '/' :: rest) : trimFront cs = cs := by
  have first : (splitSlash cs).1 = name := by
    rcases h with rfl | ⟨rest, rfl⟩
    · have others : ∀ c ∈ cs, (c != '/') = true := fun c hc => bne_iff_ne.2 fun same => hs (same ▸ hc)
      exact List.takeWhile_eq_self_iff.2 others
    · rw [splitSlash_sep hs]
  cases cs with
  | nil => rw [trimFront]
  | cons c cs =>
    rw [trimFront]
    split
    · rename_i none
      exact absurd (first.symm.trans none) hn
    · rename_i dot
      exact absurd (first.symm.trans dot) hd
    · rfl

/-- Nothing is trimmed behind a name. -/
theorem trimBack_joined {name : List Char} (hs : '/' ∉ name) (hn : name ≠ []) (hd : name ≠ ['.']) {cs : List Char}
    (h : cs = name ∨ ∃ front, cs = front ++ '/' :: name) : trimBack cs = cs := by
  obtain ⟨rest, hrest⟩ : ∃ rest, cs.reverse = name.reverse ++ rest := by
    rcases h with rfl | ⟨front, rfl⟩
    · exact ⟨[], (List.append_nil _).symm⟩
    · exact ⟨'/' :: front.reverse, by simp⟩
  have stays : trimBack.go cs.reverse = cs.reverse := by
    -- on the end of the name: its last character is no slash, nor is one in front of a dot
    have others : ∀ c ∈ name.reverse, c ≠ '/' := fun c hc same => hs (same ▸ List.mem_reverse.1 hc)
    rw [hrest]
    cases hr : name.reverse with
    | nil => exact absurd (List.reverse_eq_nil_iff.1 hr) hn
    | cons c r =>
      rw [hr] at others
      unfold trimBack.go
      split
      · rename_i heq
        cases heq
        exact absurd rfl (others _ List.mem_cons_self)
      · rename_i heq
        cases r with
        | nil =>
          have dot : c = '.' := by cases heq; rfl
          exact absurd (by rw [← List.reverse_reverse name, hr, dot]; rfl) hd
        | cons d r =>
          cases heq
          exact absurd rfl (others _ (List.mem_cons_of_mem _ List.mem_cons_self))
      · rename_i heq
        cases r with
        | nil =>
          have dot : c = '.' := by cases heq; rfl
          exact absurd (by rw [← List.reverse_reverse name, hr, dot]; rfl) hd
        | cons d r => cases heq
      · rfl
  rw [trimBack, stays, List.reverse_reverse]

/-- What is in front of a relative path: nothing, or a text that ends in a slash. -/
def Front (cs : List Char) : Prop :=
  cs = [] ∨ ∃ front, cs = front ++ ['/']

/-- What is in front of a relative path goes on so behind its first slash. -/
theorem Front.split {c : Char} {cs : List Char} (h : Front (c :: cs)) :
    c :: cs = (splitSlash (c :: cs)).1 ++ '/' :: (splitSlash (c :: cs)).2 ∧ Front (splitSlash (c :: cs)).2 := by
  obtain ⟨front, hfront⟩ := h.resolve_left (List.cons_ne_nil _ _)
  obtain ⟨slash, ⟨all, -⟩ | whole⟩ := splitSlash_spec (c :: cs)
  · exact absurd (all ▸ hfront ▸ List.mem_append_right _ List.mem_cons_self) slash
  · refine ⟨whole, ?_⟩
    rcases List.eq_nil_or_concat' (splitSlash (c :: cs)).2 with none | ⟨rest, d, hrest⟩
    · exact .inl none
    · rw [hrest, hfront] at whole
      have same := congrArg List.getLast? whole
      rw [← List.cons_append, ← List.append_assoc, List.getLast?_concat, List.getLast?_concat] at same
      cases same
      exact .inr ⟨rest, hrest⟩

/-- The first slash in front of a relative path is the first of the whole path. -/
theorem Front.splitSlash_append {c : Char} {cs : List Char} (h : Front (c :: cs)) (tail : List Char) :
    splitSlash (c :: (cs ++ tail)) = ((splitSlash (c :: cs)).1, (splitSlash (c :: cs)).2 ++ tail) := by
  have whole : c :: (cs ++ tail) = (splitSlash (c :: cs)).1 ++ '/' :: ((splitSlash (c :: cs)).2 ++ tail) := by
    rw [← List.cons_append, h.split.1, List.append_assoc, ← h.split.1]
    rfl
  rw [whole, splitSlash_sep (splitSlash_spec _).1]

/-- The components in front of a text leave that text, without slashes and dots around it. -/
theorem stripFrom_body (tail : List Char) {front : List Char} (h : Front front) :
    stripFrom (trimBack (trimFront (front ++ tail))) (body (front ++ tail)) ((body front).map Prod.fst) =
      some (trimBack (trimFront tail)) := by
  -- empty names and dots are passed over on both sides, any other component is cut off on both
  induction front using body.induct with
  | case1 =>
    rw [List.nil_append, body]
    unfold stripFrom
    rfl
  | case2 c cs rest first ih =>
    rw [List.cons_append, trimFront, body, body, h.splitSlash_append, first]
    exact ih h.split.2
  | case3 c cs rest first ih =>
    rw [List.cons_append, trimFront, body, body, h.splitSlash_append, first]
    exact ih h.split.2
  | case4 c cs rest first ih =>
    have same := h.splitSlash_append tail
    rw [List.cons_append, body_up (by rw [same]; exact first), body_up first, same, List.map_cons, stripFrom, if_pos rfl]
    exact ih h.split.2
  | case5 c cs rest empty here up ih =>
    have same := h.splitSlash_append tail
    rw [List.cons_append, body_name (by rw [same]; exact empty) (by rw [same]; exact here) (by rw [same]; exact up),
      body_name empty here up, same, List.map_cons, stripFrom, if_pos rfl]
    exact ih h.split.2

/-- What comes behind a base is what is left of a path. -/
theorem stripBase?_eq {path base : String} {front tail : List Char} (h : Front front)
    (hpath : path.toList = '/' :: (front ++ tail)) (hbase : components base = .root :: (body front).map Prod.fst) :
    stripBase? path base = some (String.ofList (trimBack (trimFront tail))) := by
  have steps : steps path.toList = (.root, front ++ tail) :: body (front ++ tail) := by
    rw [hpath]
    rfl
  rw [stripBase?, steps, hbase, stripFrom, if_pos rfl, stripFrom_body tail h, Option.map_some]

/-- Plain names that come behind a base are what is left of a path. -/
theorem stripBase?_eq_joined {path base : String} {names : List String} {front : List Char} (h : Front front)
    (hpath : path.toList = '/' :: (front ++ (joined names).toList))
    (hbase : components base = .root :: (body front).map Prod.fst) (hp : ∀ n ∈ names, Plain n) (hn : names ≠ []) :
    stripBase? path base = some (joined names) := by
  obtain ⟨hf, hb⟩ : trimFront (joined names).toList = (joined names).toList ∧
      trimBack (joined names).toList = (joined names).toList := by
    have apart {n : String} (plain : Plain n) : n.toList ≠ [] ∧ n.toList ≠ ['.'] :=
      ⟨fun none => plain.nonempty (String.toList_inj.1 none), fun dot => plain.here (String.toList_inj.1 dot)⟩
    constructor
    · obtain ⟨name, rest, rfl⟩ := List.exists_cons_of_ne_nil hn
      have first := hp name List.mem_cons_self
      refine trimFront_joined first.slash (apart first).1 (apart first).2 ?_
      cases rest with
      | nil => exact .inl (congrArg _ (joined_singleton name))
      | cons next rest => exact .inr ⟨_, toList_joined_cons name next rest⟩
    · obtain ⟨init, name, rfl⟩ := (List.eq_nil_or_concat' names).resolve_left hn
      have last := hp name (List.mem_append_right _ List.mem_cons_self)
      refine trimBack_joined last.slash (apart last).1 (apart last).2 ?_
      by_cases one : init = []
      · rw [one, List.nil_append, joined_singleton]
        exact .inl rfl
      · rw [joined_snoc one, String.append_assoc, String.toList_append, String.toList_append]
        exact .inr ⟨_, rfl⟩
  rw [stripBase?_eq h hpath hbase, hf, hb, String.ofList_toList]

/-- A base is in front of what is joined to it. -/
theorem exists_front_of_join {base path : String} (hb : isAbsolute base) (h : isAbsolute path = false) :
    ∃ front, Front front ∧ (join base path).toList = '/' :: (front ++ path.toList) ∧
      components base = .root :: (body front).map Prod.fst := by
  obtain ⟨front, hfront, ⟨whole, hf⟩ | whole⟩ := toList_join base h hb
  · refine ⟨front, hf, whole, ?_⟩
    rw [components, hfront]
    rfl
  · refine ⟨front ++ ['/'], .inr ⟨front, rfl⟩, ?_, ?_⟩
    · rw [whole, List.append_assoc]
      rfl
    · rw [components, hfront, map_fst_body, namesIn_sep]
      show _ :: (body front).map Prod.fst = _
      rw [map_fst_body]
      exact congrArg _ (congrArg _ (List.append_nil _).symm)

/-- What was joined to a base is left of the path, without slashes and dots around it. -/
theorem stripBase?_join_relative {base path : String} (hb : isAbsolute base) (h : isAbsolute path = false) :
    stripBase? (join base path) base = some (String.ofList (trimBack (trimFront path.toList))) := by
  obtain ⟨front, hf, whole, components⟩ := exists_front_of_join hb h
  exact stripBase?_eq hf whole components

/-- Plain names behind a base that was joined are what is left. -/
theorem stripBase?_join {base : String} {names : List String} (hb : isAbsolute base) (hp : ∀ n ∈ names, Plain n)
    (hn : names ≠ []) : stripBase? (join base (joined names)) base = some (joined names) := by
  obtain ⟨front, hf, whole, components⟩ := exists_front_of_join hb (isAbsolute_joined hp)
  exact stripBase?_eq_joined hf whole components hp hn

/-- A path relative to its root does not depend on the root. -/
theorem relativeTo_join {root root' path : String} (hr : isAbsolute root) (hr' : isAbsolute root')
    (h : isAbsolute path = false) : relativeTo root (join root path) = relativeTo root' (join root' path) := by
  rw [relativeTo, relativeTo, stripBase?_join_relative hr h, stripBase?_join_relative hr' h]
  rfl

end InPlace.Files

import InPlace.Proofs.Files.Paths
import InPlace.Tagging.Options

/-!
# Names behind a root

A path may begin at the top, with a single dot, or with a name. Whatever it begins with, names that are joined to it
become its last components, and a base that is cut off takes no more away than its own components. So a name behind the
base is a part of the relative path, which is split at slashes of either kind, if the name holds no slash of either
kind itself.

Main statements: `components_join`, `components_joins`, `mem_parts_relativeTo` and `exists_relativeTo_append`.
-/

namespace InPlace.Files

open Text Text.Path

variable {cs tail : List Char} {path base root s n m : String} {ns : List String}

/-! ## Components of any path -/

/-- How a path may begin. -/
inductive Beginning : List Char → Prop
  | top (ds : List Char) : Beginning ('/' :: ds)
  | dot : Beginning ['.']
  | here (ds : List Char) : Beginning ('.' :: '/' :: ds)
  | other {cs : List Char} (top : ∀ ds, cs ≠ '/' :: ds) (dot : cs ≠ ['.']) (here : ∀ ds, cs ≠ '.' :: '/' :: ds) :
      Beginning cs

theorem beginning (cs : List Char) : Beginning cs := by
  by_cases top : ∃ ds, cs = '/' :: ds
  · obtain ⟨ds, rfl⟩ := top
    exact .top ds
  by_cases dot : cs = ['.']
  · subst dot
    exact .dot
  by_cases here : ∃ ds, cs = '.' :: '/' :: ds
  · obtain ⟨ds, rfl⟩ := here
    exact .here ds
  exact .other (fun ds h => top ⟨ds, h⟩) dot fun ds h => here ⟨ds, h⟩

theorem steps_of_other (top : ∀ ds, cs ≠ '/' :: ds) (dot : cs ≠ ['.']) (here : ∀ ds, cs ≠ '.' :: '/' :: ds) :
    steps cs = body cs := by
  unfold steps
  split
  · exact absurd rfl (top _)
  · exact absurd rfl dot
  · exact absurd rfl (here _)
  · rfl

theorem kept_of_other (top : ∀ ds, cs ≠ '/' :: ds) (dot : cs ≠ ['.']) (here : ∀ ds, cs ≠ '.' :: '/' :: ds) :
    kept cs = ([], cs) := by
  unfold kept
  split
  · exact absurd rfl (top _)
  · exact absurd rfl dot
  · exact absurd rfl (here _)
  · rfl

theorem map_fst_body_sep (cs tail : List Char) : (body (cs ++ '/' :: tail)).map Prod.fst =
    (body cs).map Prod.fst ++ (namesIn tail).filterMap component? := by
  rw [map_fst_body, map_fst_body, namesIn_sep, List.filterMap_append]

/-- What comes behind a slash does not change how a path begins. -/
theorem map_fst_steps_sep (hcs : cs ≠ []) (tail : List Char) : (steps (cs ++ '/' :: tail)).map Prod.fst =
    (steps cs).map Prod.fst ++ (namesIn tail).filterMap component? := by
  cases beginning cs with
  | top ds => exact congrArg _ (map_fst_body_sep ds tail)
  | dot => exact congrArg _ (map_fst_body tail)
  | here ds => exact congrArg _ (map_fst_body_sep ds tail)
  | other top dot here =>
    obtain ⟨c, ds, rfl⟩ := List.exists_cons_of_ne_nil hcs
    have still : steps (c :: ds ++ '/' :: tail) = body (c :: ds ++ '/' :: tail) := by
      refine steps_of_other (fun es h => ?_) (fun h => ?_) fun es h => ?_
      · cases h
        exact top _ rfl
      · exact absurd (congrArg List.length h) (by simp)
      · cases ds with
        | nil =>
          cases h
          exact dot rfl
        | cons d ds =>
          cases h
          exact here _ rfl
    rw [still, steps_of_other top dot here, map_fst_body_sep]

/-- A relative path has its components behind those of the base, where the base is not empty. -/
theorem components_join_relative (hb : base ≠ "") (h : isAbsolute path = false) :
    components (join base path) = components base ++ (pathNames path).filterMap component? := by
  have nonempty : base.isEmpty = false := Bool.eq_false_iff.2 fun none => hb (String.isEmpty_iff.1 none)
  have chars : base.toList ≠ [] := fun none => hb (String.toList_inj.1 none)
  rw [join, h, nonempty, Bool.false_or, pathNames_eq]
  simp only [Bool.false_eq_true, if_false]
  split
  · rename_i slash
    obtain ⟨front, c, whole⟩ := (List.eq_nil_or_concat' base.toList).resolve_left chars
    have same : c = '/' := by
      rw [endsInSlash, whole, List.getLast?_concat] at slash
      simpa using slash
    subst same
    have components_base : components base = (steps (front ++ '/' :: [])).map Prod.fst := by rw [components, whole]
    rw [components, String.toList_append, whole, List.append_assoc, List.singleton_append, components_base]
    by_cases none : front = []
    · subst none
      show Component.root :: (body path.toList).map Prod.fst = (Component.root :: (body []).map Prod.fst) ++ _
      rw [map_fst_body, map_fst_body]
      rfl
    · rw [map_fst_steps_sep none, map_fst_steps_sep none, List.append_assoc]
      rfl
  · rw [components, components, String.toList_append, String.toList_append, List.append_assoc]
    exact map_fst_steps_sep chars path.toList

theorem join_empty (path : String) : join "" path = path := by
  unfold join
  split
  · rfl
  · exact String.empty_append

theorem components_empty : components "" = [] := by
  show (body []).map Prod.fst = []
  rw [map_fst_body]
  rfl

/-- The components of a base are in front. -/
theorem exists_components_join (base : String) (h : isAbsolute path = false) :
    ∃ left, components (join base path) = components base ++ left := by
  by_cases hb : base = ""
  · subst hb
    rw [components_empty]
    exact ⟨_, rfl⟩
  · exact ⟨_, components_join_relative hb h⟩

theorem component?_of_proper (h : Proper n) : component? n = some (.normal n.toList) := by
  unfold component?
  rw [if_neg h.here, if_neg h.up]

/-- A name comes as the last component. -/
theorem components_join (base : String) (h : Proper n) :
    components (join base n) = components base ++ [.normal n.toList] := by
  have names : pathNames n = [n] := by
    rw [pathNames_eq, namesIn_of_not_mem h.slash fun none => h.nonempty (String.toList_inj.1 none),
      String.ofList_toList]
  by_cases hb : base = ""
  · subst hb
    have other : steps n.toList = body n.toList := by
      refine steps_of_other (fun ds hn => ?_) (fun hn => ?_) fun ds hn => ?_
      · exact h.slash (hn ▸ List.mem_cons_self)
      · exact h.here (String.toList_inj.1 hn)
      · exact h.slash (hn ▸ List.mem_cons_of_mem _ List.mem_cons_self)
    rw [join_empty, components_empty, components, other, map_fst_body, ← pathNames_eq, names,
      List.filterMap_cons_some (component?_of_proper h)]
    rfl
  · rw [components_join_relative hb h.isAbsolute_eq, names, List.filterMap_cons_some (component?_of_proper h)]
    rfl

/-- Names come as the last components. -/
theorem components_joins (path : String) (h : ∀ n ∈ ns, Proper n) :
    components (joins path ns) = components path ++ ns.map fun n => .normal n.toList := by
  induction ns generalizing path with
  | nil => exact (List.append_nil _).symm
  | cons n ns ih =>
    show components (joins (join path n) ns) = _
    rw [ih _ fun m hm => h m (List.mem_cons_of_mem _ hm), components_join _ (h n List.mem_cons_self), List.append_assoc]
    rfl

/-- Names that are joined to any path can be read off. -/
theorem joins_inj {ms : List String} (hn : ∀ n ∈ ns, Proper n) (hm : ∀ n ∈ ms, Proper n)
    (h : joins path ns = joins path ms) : ns = ms := by
  have same := congrArg components h
  rw [components_joins path hn, components_joins path hm] at same
  refine List.map_injective_iff.2 (fun a b hab => ?_) (List.append_cancel_left same)
  injection hab with chars
  exact String.toList_inj.1 chars

/-! ## What is left behind a base -/

/-- A component that is a name is one of the names. -/
theorem mem_namesIn_of_component (h : .normal n.toList ∈ (namesIn cs).filterMap component?) :
    n ∈ namesIn cs ∧ n ≠ "." := by
  obtain ⟨name, hname, hn⟩ := List.mem_filterMap.1 h
  have same := text_of_component? hn
  rw [Text.Path.Component.text, String.ofList_toList] at same
  subst same
  refine ⟨hname, ?_⟩
  rintro rfl
  cases hn

/-- Slashes and dots in front are no names. -/
theorem mem_namesIn_trimFront (hm : m ≠ ".") (h : m ∈ namesIn cs) : m ∈ namesIn (trimFront cs) := by
  have apart (cs : List Char) (rest : m ∈ namesIn (splitSlash cs).2 → m ∈ namesIn (trimFront (splitSlash cs).2))
      (first : (splitSlash cs).1 = [] ∨ (splitSlash cs).1 = ['.']) (h : m ∈ namesIn cs) :
      m ∈ namesIn (trimFront (splitSlash cs).2) := by
    rw [namesIn_splitSlash, List.mem_append] at h
    refine h.elim (fun front => ?_) rest
    rcases first with none | dot
    · rw [none, if_pos rfl] at front
      cases front
    · rw [dot, if_neg (by decide), List.mem_singleton] at front
      exact absurd front hm
  induction cs using trimFront.induct with
  | case1 => rwa [trimFront]
  | case2 c cs first ih =>
    rw [trimFront, first]
    exact apart _ ih (.inl first) h
  | case3 c cs first ih =>
    rw [trimFront, first]
    exact apart _ ih (.inr first) h
  | case4 c cs none dot =>
    rw [trimFront]
    split
    · exact absurd ‹_› none
    · exact absurd ‹_› dot
    · exact h

/-- Slashes and dots at the end are no names. -/
theorem mem_namesIn_trimBack (hm : m ≠ ".") (h : m ∈ namesIn cs) : m ∈ namesIn (trimBack cs) := by
  -- the text is trimmed from behind, so the induction is on what is left of it backwards
  have backwards (r : List Char) (h : m ∈ namesIn r.reverse) : m ∈ namesIn (trimBack.go r).reverse := by
    induction r using trimBack.go.induct with
    | case1 r ih =>
      rw [List.reverse_cons, namesIn_sep, List.mem_append] at h
      exact ih (h.resolve_right List.not_mem_nil)
    | case2 r ih =>
      rw [List.reverse_cons, List.reverse_cons, List.append_assoc, List.singleton_append, namesIn_sep,
        List.mem_append] at h
      exact ih (h.resolve_right fun dot => hm (List.mem_singleton.1 dot))
    | case3 => exact absurd (List.mem_singleton.1 h) hm
    | case4 r top here dot =>
      unfold trimBack.go
      split
      · exact absurd rfl (top _)
      · exact absurd rfl (here _)
      · exact absurd rfl dot
      · exact h
  exact backwards cs.reverse (by rwa [List.reverse_reverse])

/-- What is trimmed behind a text is its end. -/
theorem trimBack_prefix (cs : List Char) : trimBack cs <+: cs := by
  have backwards (r : List Char) : trimBack.go r <:+ r := by
    induction r using trimBack.go.induct with
    | case1 r ih => exact ih.trans (List.suffix_cons _ _)
    | case2 r ih => exact ih.trans ((List.suffix_cons _ _).trans (List.suffix_cons _ _))
    | case3 => exact List.nil_suffix
    | case4 r top here dot =>
      unfold trimBack.go
      split
      · exact absurd rfl (top _)
      · exact absurd rfl (here _)
      · exact absurd rfl dot
      · exact List.suffix_refl _
  have whole := List.reverse_prefix.2 (backwards cs.reverse)
  rwa [List.reverse_reverse] at whole

theorem mem_namesIn_trimEnd (hm : m ≠ ".") (h : m ∈ namesIn cs) : m ∈ namesIn (trimEnd cs) := by
  unfold trimEnd
  cases beginning cs with
  | top ds =>
    rw [namesIn_slash] at h
    show m ∈ namesIn ('/' :: trimBack ds)
    rw [namesIn_slash]
    exact mem_namesIn_trimBack hm h
  | dot => exact absurd (List.mem_singleton.1 h) hm
  | here ds =>
    have later : m ∈ namesIn ('/' :: ds) := by
      rw [show namesIn ('.' :: '/' :: ds) = ["."] ++ namesIn ds from namesIn_sep ['.'] ds] at h
      rw [namesIn_slash]
      exact (List.mem_append.1 h).resolve_left fun dot => hm (List.mem_singleton.1 dot)
    have back := mem_namesIn_trimBack hm later
    show m ∈ namesIn ('.' :: trimBack ('/' :: ds))
    cases left : trimBack ('/' :: ds) with
    | nil =>
      rw [left] at back
      cases back
    | cons c es =>
      have slash : c = '/' := (List.cons_prefix_cons.1 (left ▸ trimBack_prefix ('/' :: ds))).1
      subst slash
      rw [left, namesIn_slash] at back
      exact namesIn_sep ['.'] es ▸ List.mem_append_right _ back
  | other top dot here =>
    rw [kept_of_other top dot here]
    exact mem_namesIn_trimBack hm h

/-- Behind each component comes the body of what follows it. -/
theorem body_cases (cs : List Char) : body cs = [] ∨ ∃ c rest, body cs = (c, rest) :: body rest := by
  induction cs using body.induct with
  | case1 => exact .inl (by rw [body])
  | case2 c cs rest first ih =>
    rw [body, first]
    exact ih
  | case3 c cs rest first ih =>
    rw [body, first]
    exact ih
  | case4 c cs rest first ih => exact .inr ⟨_, _, body_up first⟩
  | case5 c cs rest empty here up ih => exact .inr ⟨_, _, body_name empty here up⟩

/-- The names behind the components that were cut off are in the text that is left. -/
theorem mem_names_of_stripFrom {whole s : List Char} {ds : List Component}
    (hw : ∀ m, m ≠ "." → m ∈ namesIn cs → m ∈ namesIn whole) (h : stripFrom whole (body cs) ds = some s) :
    ∃ left, (body cs).map Prod.fst = ds ++ left ∧ ∀ m : String, .normal m.toList ∈ left → m ∈ namesIn s := by
  -- trimming takes no names away but dots, so the names that are left are in the text before every component
  induction ds generalizing whole cs with
  | nil =>
    unfold stripFrom at h
    cases h
    refine ⟨_, rfl, fun m hm => ?_⟩
    rw [map_fst_body] at hm
    obtain ⟨mem, other⟩ := mem_namesIn_of_component hm
    exact hw m other mem
  | cons d ds ih =>
    rcases body_cases cs with none | ⟨c, rest, some⟩
    · rw [none, stripFrom] at h
      cases h
    · rw [some, stripFrom] at h
      split at h
      · rename_i same
        obtain ⟨left, components, inside⟩ :=
          ih (fun m hm mem => mem_namesIn_trimBack hm (mem_namesIn_trimFront hm mem)) h
        exact ⟨left, by rw [some, List.map_cons, components, same]; rfl, inside⟩
      · cases h

/-- A name behind the components of a base is on the path that is left when the base is cut off. -/
theorem mem_pathNames_of_stripBase? {left : List Component} (h : stripBase? path base = some s)
    (hl : components path = components base ++ left) (hm : .normal m.toList ∈ left) : m ∈ pathNames s := by
  obtain ⟨cs, stripped, rfl⟩ := Option.map_eq_some_iff.1 h
  rw [pathNames_eq, String.toList_ofList]
  have whole (m : String) (hm : m ≠ ".") (mem : m ∈ namesIn path.toList) : m ∈ namesIn (trimEnd path.toList) :=
    mem_namesIn_trimEnd hm mem
  have begun {c : Component} {rest ds : List Char} (hs : steps path.toList = (c, rest) :: body ds)
      (names : namesIn rest = namesIn ds) (within : ∀ m, m ≠ "." → m ∈ namesIn ds → m ∈ namesIn (trimEnd path.toList))
      (first : ∀ name, c ≠ .normal name) : m ∈ namesIn cs := by
    rw [components, hs, List.map_cons] at hl
    rw [hs] at stripped
    cases hb : components base with
    | nil =>
      rw [hb, List.nil_append] at hl
      rw [hb] at stripped
      unfold stripFrom at stripped
      cases stripped
      rw [← hl, List.mem_cons, map_fst_body] at hm
      obtain ⟨mem, other⟩ := mem_namesIn_of_component (hm.resolve_left fun same => first _ same.symm)
      exact within m other mem
    | cons d es =>
      rw [hb, List.cons_append] at hl
      rw [hb, stripFrom] at stripped
      split at stripped
      · obtain ⟨left', others, inside⟩ := mem_names_of_stripFrom
          (fun m hm mem => mem_namesIn_trimBack hm (mem_namesIn_trimFront hm (names ▸ mem))) stripped
        rw [others] at hl
        exact inside m (List.append_cancel_left (List.cons.inj hl).2 ▸ hm)
      · cases stripped
  have shape := beginning path.toList
  generalize whole_eq : path.toList = cs at shape
  rw [whole_eq] at begun whole
  cases shape with
  | top ds =>
    exact begun rfl rfl (fun m hm mem => whole m hm (namesIn_slash ds ▸ mem)) fun name same => by cases same
  | dot =>
    exact begun (by rw [body]; rfl) rfl (fun m _ mem => absurd mem List.not_mem_nil) fun name same => by cases same
  | here ds =>
    refine begun rfl (namesIn_slash ds) (fun m hm mem => whole m hm ?_) fun name same => by cases same
    exact namesIn_sep ['.'] ds ▸ List.mem_append_right _ mem
  | other top dot here =>
    rw [whole_eq, steps_of_other top dot here] at stripped
    rw [Text.Path.components, whole_eq, steps_of_other top dot here] at hl
    obtain ⟨left', others, inside⟩ := mem_names_of_stripFrom whole stripped
    rw [others] at hl
    exact inside m (List.append_cancel_left hl ▸ hm)

/-- A name among the components of a path is a name on it. -/
theorem mem_pathNames_of_mem_components (h : .normal m.toList ∈ components path) : m ∈ pathNames path := by
  have behind {c : Component} (first : ∀ name, c ≠ .normal name) {ds : List Char}
      (h : .normal m.toList ∈ c :: (body ds).map Prod.fst) : m ∈ namesIn ds := by
    rw [map_fst_body] at h
    exact (mem_namesIn_of_component ((List.mem_cons.1 h).resolve_left fun same => first _ same.symm)).1
  rw [components] at h
  rw [pathNames_eq]
  have shape := beginning path.toList
  generalize path.toList = cs at shape h
  cases shape with
  | top ds =>
    rw [namesIn_slash]
    exact behind (fun name same => by cases same) h
  | dot => cases List.mem_singleton.1 h
  | here ds =>
    rw [show namesIn ('.' :: '/' :: ds) = ["."] ++ namesIn ds from namesIn_sep ['.'] ds]
    exact List.mem_append_right _ (behind (fun name same => by cases same) h)
  | other top dot here =>
    rw [steps_of_other top dot here, map_fst_body] at h
    exact (mem_namesIn_of_component h).1

/-! ## Parts between slashes of either kind -/

/-- A name without a backslash behind the root is a part of the relative path. -/
theorem mem_parts_relativeTo {left : List Component} (hl : components path = components root ++ left)
    (hm : .normal m.toList ∈ left) (back : '\\' ∉ m.toList) : m ∈ Tagging.Options.parts (relativeTo root path) := by
  have named : m ∈ pathNames ((stripBase? path root).getD path) := by
    cases stripped : stripBase? path root with
    | some s => exact mem_pathNames_of_stripBase? stripped hl hm
    | none => exact mem_pathNames_of_mem_components (hl ▸ List.mem_append_right _ hm)
  obtain ⟨nonempty, slash⟩ := of_mem_namesIn named
  obtain ⟨part, hpart, same⟩ := List.mem_map.1 named
  have chars : m.toList = part := by rw [← same, String.toList_ofList]
  have solid (c : Char) (hc : c ∈ part) : (c == '/' || c == '\\') = false := by
    rw [← chars] at hc
    rw [Bool.or_eq_false_iff, beq_eq_false_iff_ne, beq_eq_false_iff_ne]
    exact ⟨fun same => slash (same ▸ hc), fun same => back (same ▸ hc)⟩
  -- split with both separators, then with the one put in place of the other, then without those in front
  have both := mem_splitWith_of_le (q := fun c => c == '/' || c == '\\') (fun c hc => Bool.or_eq_true_iff.2 (.inl hc))
    (List.mem_filter.1 hpart).1 solid
  have mapped := List.mem_map_of_mem (f := List.map fun c => if c == '\\' then '/' else c) both
  rw [← splitWith_map fun c => by by_cases hc : c = '\\' <;> simp [hc]] at mapped
  have unchanged : part.map (fun c => if c == '\\' then '/' else c) = part := by
    refine (List.map_congr_left fun c hc => ?_).trans (List.map_id part)
    rw [(Bool.or_eq_false_iff.1 (solid c hc)).2]
    rfl
  rw [unchanged] at mapped
  have front := mem_splitWith_dropWhile (q := (· == '/')) (fun c hc => Bool.or_eq_true_iff.2 (.inl hc)) mapped
    fun none => nonempty (String.toList_inj.1 (chars.trans none))
  rw [Tagging.Options.parts, relativeTo, String.toList_ofList, ← same]
  exact List.mem_map_of_mem front

/-! ## Below a directory -/

/-- What comes behind a slash is trimmed only if nothing is left in front of the slash. -/
theorem trimFront_sep (cs tail : List Char) :
    trimFront (cs ++ '/' :: tail) = if trimFront cs = [] then trimFront tail else trimFront cs ++ '/' :: tail := by
  induction cs using trimFront.induct with
  | case1 => simp [trimFront, splitSlash]
  | case2 c cs first ih =>
    obtain ⟨-, ⟨none, -⟩ | whole⟩ := splitSlash_spec (c :: cs)
    · rw [first] at none
      cases none
    · rw [first, List.nil_append] at whole
      rw [whole, List.cons_append, trimFront, trimFront]
      exact ih
  | case3 c cs first ih =>
    obtain ⟨-, ⟨all, rest⟩ | whole⟩ := splitSlash_spec (c :: cs)
    · rw [first] at all
      rw [all]
      simp [trimFront, splitSlash]
    · rw [first] at whole
      rw [whole]
      simpa [trimFront, splitSlash] using ih
  | case4 c cs none dot =>
    obtain ⟨slash, whole⟩ := splitSlash_spec (c :: cs)
    have stays : trimFront (c :: cs) = c :: cs :=
      trimFront_joined slash none dot (whole.imp And.left fun whole => ⟨_, whole⟩)
    rw [stays, if_neg (List.cons_ne_nil _ _)]
    refine trimFront_joined slash none dot (.inr ?_)
    rcases whole with ⟨all, -⟩ | whole
    · exact ⟨tail, by rw [← all]⟩
    · refine ⟨(splitSlash (c :: cs)).2 ++ '/' :: tail, ?_⟩
      rw [← List.cons_append, ← List.append_assoc, ← whole]

/-- The text ends in a name that is plain. -/
def EndsIn (cs : List Char) (n : String) : Prop :=
  Plain n ∧ (cs = n.toList ∨ ∃ front, cs = front ++ '/' :: n.toList)

/-- Behind a text that ends in a name nothing is trimmed. -/
theorem EndsIn.trimBack_trimFront (h : EndsIn cs n) : trimBack (trimFront cs) = trimFront cs := by
  obtain ⟨plain, ends⟩ := h
  have nonempty : n.toList ≠ [] := fun none => plain.nonempty (String.toList_inj.1 none)
  have undotted : n.toList ≠ ['.'] := fun dot => plain.here (String.toList_inj.1 dot)
  have alone : trimFront n.toList = n.toList := trimFront_joined plain.slash nonempty undotted (.inl rfl)
  apply trimBack_joined plain.slash nonempty undotted
  rcases ends with rfl | ⟨front, rfl⟩
  · exact .inl alone
  · rw [trimFront_sep]
    split
    · exact .inl alone
    · exact .inr ⟨_, rfl⟩

/-- A path ends in the name that is joined to it. -/
theorem endsIn_join (path : String) (h : Plain n) : EndsIn (join path n).toList n := by
  refine ⟨h, ?_⟩
  rw [join, h.isAbsolute_eq, if_neg Bool.false_ne_true]
  split
  · rename_i bare
    rw [String.toList_append]
    rcases Bool.or_eq_true_iff.1 bare with empty | slash
    · rw [String.isEmpty_iff.1 empty]
      exact .inl rfl
    · obtain ⟨front, hf⟩ := List.getLast?_eq_some_iff.1 (beq_iff_eq.1 slash)
      exact .inr ⟨front, by rw [hf, List.append_assoc]; rfl⟩
  · exact .inr ⟨path.toList, by simp [String.toList_append]⟩

theorem endsIn_joins (path : String) {n : String} (h : ∀ m ∈ ns ++ [n], Plain m) :
    EndsIn (joins path (ns ++ [n])).toList n := by
  rw [joins, List.foldl_append]
  exact endsIn_join _ (h n (List.mem_append_right _ List.mem_cons_self))

/-- Behind a name a path is joined with a slash. -/
theorem EndsIn.join_eq {rel : String} (h : EndsIn path.toList n) (hr : isAbsolute rel = false) :
    join path rel = path ++ "/" ++ rel := by
  obtain ⟨plain, ends⟩ := h
  obtain ⟨front, hfront⟩ : ∃ front, path = front ++ n := by
    rcases ends with all | ⟨front, whole⟩
    · exact ⟨"", by rw [String.empty_append]; exact String.toList_inj.1 all⟩
    · refine ⟨String.ofList (front ++ ['/']), String.toList_inj.1 ?_⟩
      simp [whole, String.toList_append]
  have nonempty : path.isEmpty = false := by
    rw [← Bool.not_eq_true, String.isEmpty_iff]
    rintro rfl
    exact plain.nonempty (String.append_eq_empty_iff.1 hfront.symm).2
  have slash : endsInSlash path = false := by
    rw [hfront]
    exact plain.endsInSlash_eq front
  rw [join, hr, nonempty, slash]
  rfl

/-- What is left of a relative path behind an absolute root, with slashes of one kind. -/
theorem relativeTo_of_endsIn (hr : isAbsolute root) (h : isAbsolute path = false) (ends : EndsIn path.toList n) :
    relativeTo root (join root path) =
      String.ofList (((trimFront path.toList).map fun c => if c == '\\' then '/' else c).dropWhile (· == '/')) := by
  rw [relativeTo, stripBase?_join_relative hr h, Option.getD_some, String.toList_ofList, ends.trimBack_trimFront]

/-- Below a directory the path relative to the root begins with the one of the directory. -/
theorem exists_relativeTo_append {rel : String} {ks : List String} (hr : isAbsolute root) (h : isAbsolute rel = false)
    (hk : ∀ k ∈ ks, Plain k) (hn : ∀ n ∈ ns, Plain n) (nonempty : ns ≠ [])
    (named : relativeTo root (joins (join root rel) ks) ≠ "") (inside : ks ≠ []) :
    ∃ rest, relativeTo root (joins (join root rel) (ks ++ ns)) =
      relativeTo root (joins (join root rel) ks) ++ "/" ++ rest := by
  have plain : ∀ m ∈ ks ++ ns, Plain m := fun m hm => (List.mem_append.1 hm).elim (hk m) (hn m)
  obtain ⟨whole, relative⟩ := joins_join hr h hk
  obtain ⟨whole', relative'⟩ := joins_join hr h plain
  obtain ⟨init, k, rfl⟩ := (List.eq_nil_or_concat' ks).resolve_left inside
  obtain ⟨init', n, rfl⟩ := (List.eq_nil_or_concat' ns).resolve_left nonempty
  have ends := endsIn_joins rel hk
  have ends' : EndsIn (joins rel (init ++ [k] ++ (init' ++ [n]))).toList n := by
    rw [← List.append_assoc]
    exact endsIn_joins rel (by rwa [List.append_assoc])
  have below : (joins rel (init ++ [k] ++ (init' ++ [n]))).toList =
      (joins rel (init ++ [k])).toList ++ '/' :: (joined (init' ++ [n])).toList := by
    rw [joins, List.foldl_append]
    show (joins (joins rel (init ++ [k])) (init' ++ [n])).toList = _
    rw [joins_eq hn nonempty, ends.join_eq (isAbsolute_joined hn)]
    simp [String.toList_append]
  rw [whole, relativeTo_of_endsIn hr relative ends] at named ⊢
  rw [whole', relativeTo_of_endsIn hr relative' ends', below, trimFront_sep]
  have left : trimFront (joins rel (init ++ [k])).toList ≠ [] := by
    intro none
    rw [none] at named
    exact named rfl
  rw [if_neg left, List.map_append, List.dropWhile_append, if_neg]
  · refine ⟨String.ofList ((joined (init' ++ [n])).toList.map fun c => if c == '\\' then '/' else c), ?_⟩
    rw [String.ofList_append, List.map_cons, String.append_assoc]
    exact congrArg _ (@String.ofList_append ['/'] _)
  · rw [List.isEmpty_iff]
    intro none
    rw [none] at named
    exact named rfl

end InPlace.Files

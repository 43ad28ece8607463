import InPlace.Json.Record
import Mathlib.Data.String.Basic

/-!
# Fields of objects

An object that is put together from fields has them in the order of their keys, every key once, and of two fields
with the same key it has the later one. So it can be read as a record, and the fields of a map that is in this order
already stay as they are.

Main statements: `get?_ofFields`, `ordered_sortFields`, `sortFields_of_ordered` and `exists_record?_ofFields`.
-/

namespace InPlace.Json

/-! ## Lookups -/

section

variable {k l : String} {v : Json} {fs gs : List (String × Json)}

@[simp] theorem lookup_nil (k : String) : lookup k [] = none := rfl

@[simp] theorem lookup_cons : lookup k ((l, v) :: fs) = if l = k then some v else lookup k fs := rfl

@[simp] theorem lookup_append (k : String) (fs gs : List (String × Json)) :
    lookup k (fs ++ gs) = (lookup k fs).or (lookup k gs) := by
  induction fs with
  | nil => rfl
  | cons f fs ih =>
    obtain ⟨l, v⟩ := f
    by_cases h : l = k
    · simp [lookup, h]
    · simp [lookup, h, ih]

@[simp] theorem lookup_present {α : Type} (k l : String) (f : α → Json) (a : Option α) :
    lookup k (present l f a) = if l = k then a.map f else none := by
  cases a with
  | none => simp [present]
  | some a => simp [present, lookup]

@[simp] theorem reverse_present {α : Type} (k : String) (f : α → Json) (a : Option α) :
    (present k f a).reverse = present k f a := by
  cases a <;> rfl

/-- Of fields with one name the last counts, when they are sorted. -/
theorem lookup_sortFields (fs : List (String × Json)) (k : String) :
    lookup k (sortFields fs) = lookup k fs.reverse := by
  -- the last of several fields with one key is the one that stays, in any fields put in before
  have inserted : ∀ (fs done : List (String × Json)),
      lookup k (fs.foldl (fun done f => insertField f.1 f.2 done) done) =
        (lookup k fs.reverse).or (lookup k done) := by
    intro fs
    induction fs with
    | nil => exact fun _ => rfl
    | cons f fs ih =>
      intro done
      rw [List.foldl_cons, ih, get?_insertField, List.reverse_cons, lookup_append]
      cases lookup k fs.reverse with
      | some v => rfl
      | none =>
        obtain ⟨l, v⟩ := f
        by_cases h : l = k
        · simp [lookup, h]
        · simp [lookup, h]
  have h := inserted fs []
  simpa [sortFields, lookup] using h

/-- Of two fields with the same key the later one is read. -/
theorem get?_ofFields (fs : List (String × Json)) (k : String) :
    (ofFields fs).get? k = lookup k fs.reverse :=
  lookup_sortFields fs k

end

/-! ## The order of keys -/

/-- The keys are in the order of code points, every key once. -/
def Ordered {α : Type} (fs : List (String × α)) : Prop :=
  fs.Pairwise fun f g => f.1 < g.1

instance {α : Type} (fs : List (String × α)) : Decidable (Ordered fs) :=
  inferInstanceAs (Decidable (fs.Pairwise fun f g => f.1 < g.1))

/-- A field that is inserted comes among the others, or in place of one. -/
theorem keys_insertField {k : String} {v : Json} {fs : List (String × Json)} {f : String × Json}
    (h : f ∈ insertField k v fs) : f.1 = k ∨ f ∈ fs := by
  induction fs with
  | nil =>
    rw [insertField, List.mem_singleton] at h
    exact .inl (congrArg Prod.fst h)
  | cons g fs ih =>
    obtain ⟨l, w⟩ := g
    unfold insertField at h
    split at h
    · rcases List.mem_cons.1 h with rfl | later
      · exact .inl rfl
      · exact .inr (List.mem_cons_of_mem _ later)
    · split at h
      · rcases List.mem_cons.1 h with rfl | later
        · exact .inl rfl
        · exact .inr later
      · rcases List.mem_cons.1 h with rfl | later
        · exact .inr List.mem_cons_self
        · rcases ih later with same | later
          · exact .inl same
          · exact .inr (List.mem_cons_of_mem _ later)

/-- A field that is put into fields in order is in its place. -/
theorem ordered_insertField {k : String} {v : Json} {fs : List (String × Json)} (h : Ordered fs) :
    Ordered (insertField k v fs) := by
  induction fs with
  | nil => exact List.pairwise_singleton _ _
  | cons g fs ih =>
    obtain ⟨l, w⟩ := g
    obtain ⟨first, rest⟩ := List.pairwise_cons.1 h
    unfold insertField
    split
    · rename_i same
      subst same
      exact List.pairwise_cons.2 ⟨first, rest⟩
    · rename_i other
      split
      · rename_i before
        refine List.pairwise_cons.2 ⟨fun f hf => ?_, h⟩
        rcases List.mem_cons.1 hf with rfl | later
        · exact before
        · exact lt_trans before (first f later)
      · rename_i behind
        have after : l < k := lt_of_le_of_ne (not_lt.1 behind) (Ne.symm other)
        refine List.pairwise_cons.2 ⟨fun f hf => ?_, ih rest⟩
        rcases keys_insertField hf with same | later
        · rw [same]
          exact after
        · exact first f later

/-- Sorted fields have different names, in order. -/
theorem ordered_sortFields (fs : List (String × Json)) : Ordered (sortFields fs) := by
  have inserted : ∀ (fs done : List (String × Json)), Ordered done →
      Ordered (fs.foldl (fun done f => insertField f.1 f.2 done) done) := by
    intro fs
    induction fs with
    | nil => exact fun _ h => h
    | cons f fs ih => exact fun done h => ih _ (ordered_insertField h)
  exact inserted fs [] List.Pairwise.nil

/-- A key behind all others is put at the end. -/
theorem insertField_of_forall_lt {k : String} {v : Json} {fs : List (String × Json)}
    (h : ∀ f ∈ fs, f.1 < k) : insertField k v fs = fs ++ [(k, v)] := by
  induction fs with
  | nil => rfl
  | cons g fs ih =>
    obtain ⟨l, w⟩ := g
    obtain ⟨before, rest⟩ := List.forall_mem_cons.1 h
    rw [insertField, if_neg (ne_of_gt before), if_neg (lt_asymm before), ih rest]
    rfl

/-- Fields in order stay as they are. -/
theorem sortFields_of_ordered {fs : List (String × Json)} (h : Ordered fs) : sortFields fs = fs := by
  have inserted : ∀ (fs done : List (String × Json)), Ordered (done ++ fs) →
      fs.foldl (fun done f => insertField f.1 f.2 done) done = done ++ fs := by
    intro fs
    induction fs with
    | nil => exact fun done _ => (List.append_nil done).symm
    | cons f fs ih =>
      intro done h
      have before : ∀ g ∈ done, g.1 < f.1 := fun g hg =>
        (List.pairwise_append.1 h).2.2 g hg f List.mem_cons_self
      rw [List.foldl_cons, insertField_of_forall_lt before, ih (done ++ [f]) (by simpa using h)]
      simp
  exact inserted fs [] h

/-! ## Records -/

/-- In order no name occurs twice. -/
theorem occurrences_le_one {fs : List (String × Json)} (h : Ordered fs) (k : String) :
    occurrences k fs ≤ 1 := by
  induction fs with
  | nil => exact Nat.zero_le 1
  | cons f fs ih =>
    obtain ⟨first, rest⟩ := List.pairwise_cons.1 h
    by_cases same : f.1 = k
    · subst same
      have later : occurrences f.1 fs = 0 :=
        List.countP_eq_zero.2 fun g hg => by simpa using (ne_of_gt (first g hg))
      have here : occurrences f.1 (f :: fs) = occurrences f.1 fs + 1 :=
        List.countP_cons_of_pos (by simp)
      omega
    · have here : occurrences k (f :: fs) = occurrences k fs :=
        List.countP_cons_of_neg (by simpa using same)
      rw [here]
      exact ih rest

/-- An object that was put together from fields is read as a record of these fields. -/
theorem exists_record?_ofFields (names : List String) (least : Nat) (fs : List (String × Json)) :
    ∃ gs, record? names least (ofFields fs) = some gs ∧ ∀ k, lookup k gs = lookup k fs.reverse :=
  ⟨sortFields fs, record?_obj fun k _ => occurrences_le_one (ordered_sortFields fs) k, lookup_sortFields fs⟩

section

variable {α : Type} {k : String} {fs : List (String × Json)} {read : Json → Option α} {f : α → Json}
  {a : Option α}

/-- A field that has to be there is read back. -/
theorem required?_of_lookup {b : α} (h : lookup k fs = some (f b)) (back : read (f b) = some b) :
    required? read k fs = some b := by
  rw [required?, h, Option.bind_some, back]

/-- A field that is null where there is no value is read back. -/
theorem nullable?_ofOption (h : lookup k fs = some (ofOption f a)) (back : ∀ b, a = some b → read (f b) = some b)
    (filled : ∀ b, f b ≠ null) : nullable? read k fs = some a := by
  unfold nullable?
  rw [h]
  cases a with
  | none => rfl
  | some b =>
    rw [ofOption]
    split
    · rename_i missing
      cases missing
    · rename_i empty
      exact absurd (Option.some.inj empty) (filled b)
    · rename_i there
      cases there
      rw [back b rfl, Option.map_some]

/-- A field that is left out where there is no value is read back. -/
theorem nullable?_map (h : lookup k fs = a.map f) (back : ∀ b, a = some b → read (f b) = some b)
    (filled : ∀ b, f b ≠ null) : nullable? read k fs = some a := by
  cases a with
  | none =>
    unfold nullable?
    rw [h]
    rfl
  | some b => exact nullable?_ofOption h back filled

end

theorem str?_str (s : String) : str? (str s) = some s := rfl

theorem str?_eq_some_iff {j : Json} {s : String} : str? j = some s ↔ j = str s := by
  cases j <;> simp [str?]

theorem required?_str?_eq_some_iff {k s : String} {fs : List (String × Json)} :
    required? str? k fs = some s ↔ lookup k fs = some (str s) := by
  simp only [required?, Option.bind_eq_some_iff, str?_eq_some_iff, exists_eq_right]

theorem bool?_bool (b : Bool) : bool? (bool b) = some b := rfl

theorem natBelow?_ofNat {bound n : Nat} (h : n < bound) : natBelow? bound (ofNat n) = some n := by
  have inside : (0 : Int) ≤ n ∧ (n : Int) < bound := ⟨Int.natCast_nonneg n, Int.ofNat_lt.2 h⟩
  rw [ofNat, natBelow?, if_pos inside, Int.toNat_natCast]

theorem float?_ofFloat {x : Float} (h : x.isFinite = true) : float? (ofFloat x) = some x := by
  rw [ofFloat, if_pos h]
  rfl

/-- Texts that are held in the order of their keys are read back. -/
theorem texts?_ofTexts {texts : List (String × String)} (h : Ordered texts) :
    texts? (ofTexts texts) = some texts := by
  have fields : Ordered (texts.map fun f => (f.1, str f.2)) := List.pairwise_map.2 h
  rw [ofTexts, ofFields, sortFields_of_ordered fields, texts?, List.mapM_map]
  exact List.mapM_pure.trans (congrArg some (List.map_id texts))

end InPlace.Json

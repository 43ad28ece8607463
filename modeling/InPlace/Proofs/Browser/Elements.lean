import InPlace.Browser.Document
import InPlace.Proofs.Page.Styles

/-!
# Inline styles of elements in a browser

All that an element of a browser has of its inline style is the text in an attribute. The declarations that are read
from it have names of their own and can be written back (`declarations_setDeclarations`), so a declaration that is taken
out leaves the others as they are.

Main statements: `declarations_dropDeclaration` and `drop_declarations_putDeclaration`.
-/

namespace InPlace

namespace Table

variable {t : Table} {name value : String}

theorem drop_of_not_mem (h : name ∉ t.map Prod.fst) : t.drop name = t := by
  refine List.filter_eq_self.2 fun e he => ?_
  have other : e.1 ≠ name := fun hn => h (hn ▸ List.mem_map_of_mem he)
  simpa using other

theorem get?_eq_none (h : t.get? name = none) : name ∉ t.map Prod.fst := by
  induction t with
  | nil => simp
  | cons e t ih =>
    obtain ⟨k, v⟩ := e
    unfold get? at h
    split at h
    · cases h
    · rename_i hk
      rw [List.map_cons, List.mem_cons, not_or]
      exact ⟨Ne.symm hk, ih h⟩

/-- A declaration is the one that was put, or was there. -/
theorem mem_put {d : String × String} (h : d ∈ t.put name value) : d = (name, value) ∨ d ∈ t := by
  induction t with
  | nil => exact .inl (List.mem_singleton.1 h)
  | cons e t ih =>
    obtain ⟨k, v⟩ := e
    unfold put at h
    split at h
    · rcases List.mem_cons.1 h with rfl | h
      · exact .inl rfl
      · exact .inr (List.mem_cons_of_mem _ h)
    · rcases List.mem_cons.1 h with rfl | h
      · exact .inr List.mem_cons_self
      · exact (ih h).imp_right (List.mem_cons_of_mem _)

/-- A name that is given a value has it in its first place or at the end; where names do not repeat they still do
not. -/
theorem nodup_put (h : (t.map Prod.fst).Nodup) : ((t.put name value).map Prod.fst).Nodup := by
  induction t with
  | nil => simp [put]
  | cons e t ih =>
    obtain ⟨k, v⟩ := e
    have names := List.nodup_cons.1 h
    unfold put
    split
    · rename_i hk
      exact hk ▸ h
    · rename_i hk
      refine List.nodup_cons.2 ⟨fun hin => ?_, ih names.2⟩
      obtain ⟨d, hd, hname⟩ := List.mem_map.1 hin
      rcases mem_put hd with rfl | hd
      · exact hk hname.symm
      · exact names.1 (hname ▸ List.mem_map_of_mem hd)

/-- What was put and is dropped leaves the others as they were. -/
theorem drop_put (t : Table) (name value : String) (h : (t.map Prod.fst).Nodup) :
    (t.put name value).drop name = t.drop name := by
  induction t with
  | nil => simp [put, drop]
  | cons e t ih =>
    obtain ⟨k, v⟩ := e
    have rest := ih (List.nodup_cons.1 h).2
    unfold put
    unfold drop at rest ⊢
    by_cases hk : k = name
    · simp [hk]
    · simp [hk, rest]

theorem nodup_drop (h : (t.map Prod.fst).Nodup) : ((t.drop name).map Prod.fst).Nodup :=
  (List.Sublist.map Prod.fst List.filter_sublist).nodup h

end Table

namespace Browser.Element

variable {e : Element} {name : String} {ds : Table}

/-- The last declaration of each name, in the order of these. -/
def latest (ds : Table) : Table :=
  ds.foldl (fun t d => Table.drop d.1 t ++ [d]) []

theorem declarations_eq (e : Element) :
    e.declarations =
      latest ((Styles.ofText ((e.attributes.get? "style").getD "")).filter fun d => !d.2.isEmpty) :=
  rfl

theorem latest_snoc (ds : Table) (d : String × String) :
    latest (ds ++ [d]) = (latest ds).drop d.1 ++ [d] := by
  rw [latest, List.foldl_append]
  rfl

/-- The latest declarations are declarations. -/
theorem mem_of_mem_latest {d : String × String} (h : d ∈ latest ds) : d ∈ ds := by
  induction ds using List.reverseRecOn with
  | nil => exact h
  | append_singleton ds last ih =>
    rw [latest_snoc] at h
    rcases List.mem_append.1 h with h | h
    · exact List.mem_append_left _ (ih (List.mem_filter.1 h).1)
    · exact List.mem_append_right _ h

/-- Of each property one declaration is the latest. -/
theorem nodup_latest (ds : Table) : ((latest ds).map Prod.fst).Nodup := by
  induction ds using List.reverseRecOn with
  | nil => exact List.nodup_nil
  | append_singleton ds d ih =>
    rw [latest_snoc, List.map_append, List.nodup_append]
    refine ⟨Table.nodup_drop ih, (List.pairwise_singleton _ _), ?_⟩
    rintro a ha b hb rfl
    obtain ⟨x, hx, rfl⟩ := List.mem_map.1 ha
    have other : x.1 ≠ d.1 := by simpa using (List.mem_filter.1 hx).2
    exact other (List.mem_singleton.1 hb)

/-- Declarations whose names do not repeat all count. -/
theorem latest_of_nodup (h : (ds.map Prod.fst).Nodup) : latest ds = ds := by
  induction ds using List.reverseRecOn with
  | nil => rfl
  | append_singleton ds d ih =>
    rw [List.map_append, List.nodup_append] at h
    have other : d.1 ∉ ds.map Prod.fst := fun hin => h.2.2 _ hin _ (List.mem_singleton_self _) rfl
    rw [latest_snoc, ih h.1, Table.drop_of_not_mem other]

theorem nodup_declarations (e : Element) : (e.declarations.map Prod.fst).Nodup :=
  nodup_latest _

/-- What is read from an inline style can be written back, and is not empty. -/
theorem plain_of_mem_declarations {d : String × String} (h : d ∈ e.declarations) :
    Styles.Plain d ∧ d.2 ≠ "" := by
  obtain ⟨hin, hvalue⟩ := List.mem_filter.1 (mem_of_mem_latest h)
  exact ⟨Styles.plain_of_mem_ofText hin, by simpa using hvalue⟩

theorem style_setDeclarations (e : Element) (ds : Table) :
    (e.setDeclarations ds).attributes.get? "style" = some (Styles.text ds) :=
  (Table.get?_put _ _ _ _).trans (if_pos rfl)

/-- What is written is read back, but for blanks around the values. -/
theorem declarations_setDeclarations_trim (e : Element) (hds : ∀ d ∈ ds, Styles.Single d)
    (hnames : (ds.map Prod.fst).Nodup) :
    (e.setDeclarations ds).declarations =
      (ds.map fun d => (d.1, Text.trim d.2)).filter fun d => !d.2.isEmpty := by
  rw [declarations_eq, style_setDeclarations, Option.getD_some, Styles.ofText_text_trim hds]
  refine latest_of_nodup ((List.Sublist.map Prod.fst List.filter_sublist).nodup ?_)
  rw [List.map_map]
  exact hnames

/-- Declarations as they are read from an inline style are read back when they are written. -/
theorem declarations_setDeclarations (e : Element) (hds : ∀ d ∈ ds, Styles.Plain d ∧ d.2 ≠ "")
    (hnames : (ds.map Prod.fst).Nodup) : (e.setDeclarations ds).declarations = ds := by
  have trimmed := Styles.map_trim_of_plain fun d hd => (hds d hd).1
  rw [declarations_setDeclarations_trim e (fun d hd => (hds d hd).1.toSingle) hnames, trimmed]
  refine List.filter_eq_self.2 fun d hd => ?_
  simpa using (hds d hd).2

/-- A declaration that is taken out leaves the others as they are. -/
theorem declarations_dropDeclaration (e : Element) (name : String) :
    (e.dropDeclaration name).declarations = e.declarations.drop name := by
  unfold dropDeclaration
  cases h : e.declarations.get? name with
  | none => exact (Table.drop_of_not_mem (Table.get?_eq_none h)).symm
  | some value =>
    refine declarations_setDeclarations e (fun d hd => ?_) (Table.nodup_drop e.nodup_declarations)
    exact plain_of_mem_declarations (List.mem_filter.1 hd).1

/-- A declaration that is put in leaves the others as they are, if its value does not end it. -/
theorem drop_declarations_putDeclaration (e : Element) {name value : String}
    (h : Styles.Single (name, value)) :
    (e.putDeclaration name value).declarations.drop name = e.declarations.drop name := by
  unfold putDeclaration
  split
  · rw [declarations_dropDeclaration]
    exact (List.filter_filter).trans (by simp [Table.drop])
  · have single : ∀ d ∈ e.declarations.put name value, Styles.Single d := by
      intro d hd
      rcases Table.mem_put hd with rfl | hd
      · exact h
      · exact (plain_of_mem_declarations hd).1.toSingle
    rw [declarations_setDeclarations_trim e single (Table.nodup_put e.nodup_declarations)]
    have commuted : Table.drop name (((e.declarations.put name value).map fun d => (d.1, Text.trim d.2)).filter
        fun d => !d.2.isEmpty) =
        (((e.declarations.put name value).drop name).map fun d => (d.1, Text.trim d.2)).filter
          fun d => !d.2.isEmpty := by
      unfold Table.drop
      rw [List.filter_filter, List.filter_map, List.filter_map, List.filter_filter]
      congr 1
      refine List.filter_congr fun d _ => ?_
      exact Bool.and_comm _ _
    have others : ∀ d ∈ e.declarations.drop name, Styles.Plain d ∧ d.2 ≠ "" := fun d hd =>
      plain_of_mem_declarations (List.mem_filter.1 hd).1
    have trimmed := Styles.map_trim_of_plain fun d hd => (others d hd).1
    rw [commuted, Table.drop_put _ _ _ e.nodup_declarations, trimmed]
    refine List.filter_eq_self.2 fun d hd => ?_
    simpa using (others d hd).2

/-! ## Attributes beside the style -/

theorem get?_setDeclarations (e : Element) (ds : Table) (h : name ≠ "style") :
    (e.setDeclarations ds).attributes.get? name = e.attributes.get? name :=
  (Table.get?_put _ _ _ _).trans (if_neg (Ne.symm h))

/-- Without a declaration an element has the attributes that it had, but for its style. -/
theorem get?_dropDeclaration (e : Element) (property : String) (h : name ≠ "style") :
    (e.dropDeclaration property).attributes.get? name = e.attributes.get? name := by
  unfold dropDeclaration
  split
  · exact get?_setDeclarations e _ h
  · rfl

/-- With a declaration an element has the attributes that it had, but for its style. -/
theorem get?_putDeclaration (e : Element) (property value : String) (h : name ≠ "style") :
    (e.putDeclaration property value).attributes.get? name = e.attributes.get? name := by
  unfold putDeclaration
  split
  · exact get?_dropDeclaration e property h
  · exact get?_setDeclarations e _ h

end Browser.Element

end InPlace

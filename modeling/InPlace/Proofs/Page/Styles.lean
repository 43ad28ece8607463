import InPlace.Page.Styles
import InPlace.Proofs.Text.Pieces

/-!
# Declarations and their text

A text of an inline style is read as declarations and written anew from them. The declarations that are read are plain:
they have a name, nothing in them separates declarations or their parts, and no part begins or ends with a blank. Plain
declarations are read back from the text that is written from them, and no others are. Written anew, a style may be
another text, with other blanks and without what was no declaration, but it has the same declarations.

Main statements: `ofText_text_iff_and_plain` and `ofText_rewritten`.
-/

namespace InPlace.Styles

/-- A declaration that can be written as one. -/
structure Single (d : String × String) : Prop where
  name : Text.Trimmed d.1
  named : d.1 ≠ ""
  nameChars : ∀ c ∈ d.1.toList, c ≠ ':' ∧ c ≠ ';'
  valueChars : ';' ∉ d.2.toList

/-- A declaration as it is read from a text. -/
structure Plain (d : String × String) : Prop extends Single d where
  value : Text.Trimmed d.2

/-- A declaration as a text, up to the semicolon after it. -/
def declarationChars (d : String × String) : List Char :=
  d.1.toList ++ ':' :: ' ' :: d.2.toList

variable {d : String × String} {ds : Table} {front : List Char}

/-! ## What is read is plain -/

/-- A declaration that is read is plain. -/
theorem plain_of_declaration? {part : List Char} (h : declaration? part = some d) (hpart : ';' ∉ part) : Plain d := by
  unfold declaration? at h
  cases hv : part.dropWhile (· != ':') with
  | nil => simp [hv] at h
  | cons c value =>
    have inside : ∀ c ∈ value, c ∈ part := fun c hc =>
      List.dropWhile_subset _ (hv ▸ List.mem_cons_of_mem _ hc)
    rw [hv] at h
    dsimp only at h
    split at h
    · cases h
    · rename_i named
      cases Option.some.inj h
      refine ⟨⟨Text.trimmed_trim _, fun hn => named (String.isEmpty_iff.2 hn), ?_, ?_⟩, Text.trimmed_trim _⟩
      · intro c hc
        have before := Text.mem_of_mem_trim hc
        rw [String.toList_ofList] at before
        refine ⟨by simpa using List.mem_takeWhile_imp before, ?_⟩
        rintro rfl
        exact hpart (List.takeWhile_subset _ before)
      · intro hc
        have after := Text.mem_of_mem_trim hc
        rw [String.toList_ofList] at after
        exact hpart (inside _ after)

/-- Every declaration that is read from a text is plain. -/
theorem plain_of_mem_ofText {s : String} (h : d ∈ ofText s) : Plain d := by
  obtain ⟨part, hpart, hd⟩ := List.mem_filterMap.1 h
  exact plain_of_declaration? hd (Text.not_mem_of_mem_splitAt hpart)

/-! ## What is plain is read back -/

/-- A declaration is read back without the blanks around its value, whatever blanks are in front of it. -/
theorem declaration?_chars (h : Single d) (hfront : ∀ c ∈ front, c = ' ') :
    declaration? (front ++ declarationChars d) = some (d.1, Text.trim d.2) := by
  have blank : ∀ c ∈ front, Text.isBlank c = true := by
    intro c hc
    rw [hfront c hc]
    rfl
  have before : ∀ c ∈ front ++ d.1.toList, (c != ':') = true := by
    intro c hc
    rcases List.mem_append.1 hc with hc | hc
    · rw [hfront c hc]
      rfl
    · simpa using (h.nameChars c hc).1
  have shape : front ++ declarationChars d = (front ++ d.1.toList) ++ ':' :: ' ' :: d.2.toList := by
    simp [declarationChars]
  have name : Text.trim (String.ofList (front ++ d.1.toList)) = d.1 :=
    (Text.trim_append blank d.1).trans h.name.trim_eq
  have value : Text.trim (String.ofList ([' '] ++ d.2.toList)) = Text.trim d.2 :=
    Text.trim_append (List.forall_mem_singleton.2 rfl) d.2
  have named : ¬ d.1.isEmpty = true := fun hn => h.named (String.isEmpty_iff.1 hn)
  unfold declaration?
  rw [shape, List.dropWhile_append_of_pos before, List.takeWhile_append_of_pos before,
    List.dropWhile_cons_of_neg (by decide), List.takeWhile_cons_of_neg (by decide), List.append_nil]
  dsimp only
  rw [name, if_neg named]
  exact congrArg (fun v => some (d.1, v)) value

/-- Blanks alone declare nothing. -/
theorem declaration?_blanks (hfront : ∀ c ∈ front, c = ' ') : declaration? front = none := by
  have undeclared : front.dropWhile (· != ':') = [] := by
    refine List.dropWhile_eq_nil_iff.2 fun c hc => ?_
    rw [hfront c hc]
    rfl
  unfold declaration?
  rw [undeclared]

/-- A declaration does not end before its end. -/
theorem semicolon_not_mem_declarationChars (h : Single d) (hfront : ∀ c ∈ front, c = ' ') :
    ';' ∉ front ++ declarationChars d := by
  intro hc
  rw [declarationChars, List.mem_append, List.mem_append, List.mem_cons, List.mem_cons] at hc
  rcases hc with hc | hc | hc | hc | hc
  · exact absurd (hfront _ hc) (by decide)
  · exact (h.nameChars _ hc).2 rfl
  · exact absurd hc (by decide)
  · exact absurd hc (by decide)
  · exact h.valueChars hc

theorem text_cons_cons (d d' : String × String) (ds : Table) :
    (text (d :: d' :: ds)).toList = declarationChars d ++ ';' :: ' ' :: (text (d' :: ds)).toList := by
  unfold text
  rw [List.map_cons, List.map_cons, String.intercalate_cons_cons]
  simp [declarationChars]

theorem text_singleton (d : String × String) : (text [d]).toList = declarationChars d ++ [';'] := by
  unfold text
  rw [List.map_cons, List.map_nil, String.intercalate_singleton]
  simp [declarationChars]

/-- Declarations are read back from their text, without the blanks around their values, whatever blanks are in front. -/
theorem filterMap_declaration?_text (h : ∀ d ∈ ds, Single d) (hfront : ∀ c ∈ front, c = ' ') :
    (Text.splitAt ';' (front ++ (text ds).toList)).filterMap declaration? = ds.map fun d => (d.1, Text.trim d.2) := by
  -- on the declarations, each of which may stand behind the blank that follows on the one before
  induction ds generalizing front with
  | nil =>
    have none : ';' ∉ front := fun hc => absurd (hfront _ hc) (by decide)
    have empty : (text []).toList = [] := rfl
    rw [empty, List.append_nil, Text.splitAt_of_not_mem none, List.filterMap_cons, declaration?_blanks hfront]
    rfl
  | cons d ds ih =>
    obtain ⟨single, others⟩ := List.forall_mem_cons.1 h
    have none := semicolon_not_mem_declarationChars single hfront
    have first := declaration?_chars single hfront
    cases ds with
    | nil =>
      rw [text_singleton, ← List.append_assoc, Text.splitAt_append none, List.filterMap_cons, first]
      rfl
    | cons d' ds =>
      have rest := ih others (show ∀ c ∈ [' '], c = ' ' by simp)
      rw [text_cons_cons, ← List.append_assoc, Text.splitAt_append none, List.filterMap_cons, first]
      exact congrArg ((d.1, Text.trim d.2) :: ·) rest

/-- Declarations are read back from their text, without the blanks around their values. -/
theorem ofText_text_trim (h : ∀ d ∈ ds, Single d) : ofText (text ds) = ds.map fun d => (d.1, Text.trim d.2) :=
  filterMap_declaration?_text h (show ∀ c ∈ [], c = ' ' from nofun)

/-- The values of plain declarations have no blanks around them. -/
theorem map_trim_of_plain (h : ∀ d ∈ ds, Plain d) : (ds.map fun d => (d.1, Text.trim d.2)) = ds := by
  refine (List.map_congr_left fun d hd => ?_).trans (List.map_id ds)
  rw [(h d hd).value.trim_eq]
  rfl

/-- Plain declarations are read back from their text. -/
theorem ofText_text (h : ∀ d ∈ ds, Plain d) : ofText (text ds) = ds := by
  rw [ofText_text_trim fun d hd => (h d hd).toSingle]
  exact map_trim_of_plain h

/-- Texts and declarations invert each other: the lists of declarations that are read back from their text are those of
plain declarations, repeated names and empty values included, and what is read from any text is such a list, so that to
write it and to read it again changes nothing. -/
theorem ofText_text_iff_and_plain :
    (∀ ds : Table, ofText (text ds) = ds ↔ ∀ d ∈ ds, Plain d) ∧
      ∀ s : String, (∀ d ∈ ofText s, Plain d) ∧ ofText (text (ofText s)) = ofText s := by
  constructor
  · intro ds
    constructor
    · intro same d hd
      -- a list that is read back is one that was read
      rw [← same] at hd
      exact plain_of_mem_ofText hd
    · exact ofText_text
  · intro s
    have plain : ∀ d ∈ ofText s, Plain d := by
      intro d hd
      exact plain_of_mem_ofText hd
    exact ⟨plain, ofText_text plain⟩

/-- A name that is declared twice, an empty value, colons in a value and a wide blank within one, and a text of which
one piece of five is a declaration. -/
theorem ofText_text_iff_and_plain_repeated :
    let ds : Table := [("color", "red"), ("color", ""), ("background", "url(a:b) :"), ("--x", "a\u2003b")]
    let s := " ;; color\u3000:\tred ; : blue; no"
    (∀ d ∈ ds, Plain d) ∧ text ds = "color: red; color: ; background: url(a:b) :; --x: a\u2003b;" ∧
      ofText (text ds) = ds ∧ ofText s = [("color", "red")] ∧ ofText (text (ofText s)) = [("color", "red")] := by
  have trimmed : ∀ s ∈ ["color", "background", "--x", "red", "", "url(a:b) :", "a\u2003b"], Text.Trimmed s := by
    intro s hs
    rw [← Text.trim_eq_self_iff]
    revert s
    decide +kernel
  have plain : ∀ d ∈ [("color", "red"), ("color", ""), ("background", "url(a:b) :"), ("--x", "a\u2003b")], Plain d := by
    simp only [List.forall_mem_cons]
    refine ⟨?_, ?_, ?_, ?_, nofun⟩ <;>
      exact ⟨⟨trimmed _ (by simp), by simp, by simp, by simp⟩, trimmed _ (by simp)⟩
  have read : ofText " ;; color\u3000:\tred ; : blue; no" = [("color", "red")] := by decide +kernel
  exact ⟨plain, by decide +kernel, (ofText_text_iff_and_plain.1 _).2 plain, read,
    (ofText_text_iff_and_plain.2 _).2.trans read⟩

/-! ## Styles that are written anew -/

/-- A text of an inline style as it reads once it was set: written anew from its declarations, if it has
any. -/
def rewritten (s : String) : String :=
  if ofText s = [] then s else text (ofText s)

/-- Written anew, a style has the declarations that it had. -/
theorem ofText_rewritten (s : String) : ofText (rewritten s) = ofText s := by
  unfold rewritten
  split
  · rfl
  · exact ofText_text fun d hd => plain_of_mem_ofText hd

/-- To write a style anew twice is to write it anew once. -/
theorem rewritten_rewritten (s : String) : rewritten (rewritten s) = rewritten s := by
  have same := ofText_rewritten s
  by_cases h : ofText s = []
  · have kept : rewritten s = s := if_pos h
    rw [kept, kept]
  · calc rewritten (rewritten s) = text (ofText (rewritten s)) := if_neg (same ▸ h)
      _ = text (ofText s) := by rw [same]
      _ = rewritten s := (if_neg h).symm

end InPlace.Styles

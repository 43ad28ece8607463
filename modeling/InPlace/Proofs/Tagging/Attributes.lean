import InPlace.Tagging.Tagger
import Mathlib.Data.List.TakeWhile

/-!
# Attributes in a tag

The text that the tagger inserts is that of two attributes. Attributes are plain if neither their names nor
their values hold what ends them; then they can be read off their text. The value that is escaped in an
attribute is got back by putting the characters for their entities.

Main statements: `unescapeAttribute_escapeAttribute`, `plain_identityAttributes` and
`attributesText_injective`.
-/

namespace InPlace.Tagging

/-- An attribute with a quoted value. -/
structure Attribute where
  name : String
  value : String
  deriving DecidableEq

namespace Attribute

/-- Whether a character can stand in the name of one of the added attributes. -/
def isNameChar (c : Char) : Bool :=
  c.isAlphanum || c == '-'

/-- A name of letters, digits and hyphens, and a value without quotation marks. -/
structure Plain (a : Attribute) : Prop where
  named : a.name ≠ ""
  nameChars : a.name.toList.all isNameChar = true
  value : '"' ∉ a.value.toList

/-- The attribute as it is put into a tag. -/
def text (a : Attribute) : List Char :=
  ' ' :: a.name.toList ++ '=' :: '"' :: a.value.toList ++ ['"']

end Attribute

/-- Attributes one after the other. -/
def attributesText (as : List Attribute) : List Char :=
  as.flatMap Attribute.text

/-- The two attributes that a tag gets. -/
def identityAttributes (identity name : String) : List Attribute :=
  [⟨identityAttribute, escapeAttribute identity⟩, ⟨nameAttribute, escapeAttribute name⟩]

theorem toList_tagText (identity name : String) :
    (tagText identity name).toList = attributesText (identityAttributes identity name) := by
  unfold tagText attributesText identityAttributes
  simp [Attribute.text, String.toList_append]

/-! ## Escaping -/

/-- The text with the characters put for their entities. -/
def unescape : List Char → List Char
  | [] => []
  | '&' :: 'a' :: 'm' :: 'p' :: ';' :: cs => '&' :: unescape cs
  | '&' :: 'l' :: 't' :: ';' :: cs => '<' :: unescape cs
  | '&' :: 'g' :: 't' :: ';' :: cs => '>' :: unescape cs
  | '&' :: 'q' :: 'u' :: 'o' :: 't' :: ';' :: cs => '"' :: unescape cs
  | c :: cs => c :: unescape cs

/-- The value that an attribute has if `s` is written for it. -/
def unescapeAttribute (s : String) : String :=
  String.ofList (unescape s.toList)

/-- The characters that no text in an attribute holds once it is escaped. -/
def reserved : List Char :=
  ['<', '>', '"']

theorem unescape_cons {c : Char} (h : c ≠ '&') (cs : List Char) : unescape (c :: cs) = c :: unescape cs := by
  -- the entities all begin with an ampersand
  simp [unescape, h]

/-- An escaped character is read back in front of any text. -/
theorem unescape_escapeChar (c : Char) (cs : List Char) : unescape (escapeChar c ++ cs) = c :: unescape cs := by
  unfold escapeChar
  split
  · rfl
  · rfl
  · rfl
  · rfl
  · rename_i ampersand _ _ _
    exact unescape_cons ampersand cs

/-- What was escaped is got back. -/
theorem unescapeAttribute_escapeAttribute (s : String) : unescapeAttribute (escapeAttribute s) = s := by
  have back : ∀ cs : List Char, unescape (cs.flatMap escapeChar) = cs := by
    intro cs
    induction cs with
    | nil => rfl
    | cons c cs ih => rw [List.flatMap_cons, unescape_escapeChar, ih]
  rw [unescapeAttribute, escapeAttribute, String.toList_ofList, back, String.ofList_toList]

/-- No escaped character is one of the reserved ones. -/
theorem not_mem_escapeChar {d : Char} (hd : d ∈ reserved) (c : Char) : d ∉ escapeChar c := by
  have entities : ∀ e ∈ reserved, e ∉ "&amp;".toList ∧ e ∉ "&lt;".toList ∧ e ∉ "&gt;".toList ∧
      e ∉ "&quot;".toList :=
    List.forall_mem_cons.2 ⟨by decide +kernel, List.forall_mem_cons.2 ⟨by decide +kernel,
      List.forall_mem_singleton.2 (by decide +kernel)⟩⟩
  obtain ⟨amp, lt, gt, quot⟩ := entities d hd
  unfold escapeChar
  split
  · exact amp
  · exact lt
  · exact gt
  · exact quot
  · rename_i notLt notGt notQuot
    intro hc
    rw [List.mem_singleton.1 hc, reserved, List.mem_cons, List.mem_cons, List.mem_singleton] at hd
    exact hd.elim notLt fun hd => hd.elim notGt notQuot

/-- None of the reserved characters is left in what was escaped. -/
theorem not_mem_escapeAttribute {d : Char} (hd : d ∈ reserved) (s : String) :
    d ∉ (escapeAttribute s).toList := by
  unfold escapeAttribute
  rw [String.toList_ofList]
  intro h
  obtain ⟨c, -, hc⟩ := List.mem_flatMap.1 h
  exact not_mem_escapeChar hd c hc

/-- The attributes that are added have plain names and escaped values. -/
theorem plain_identityAttributes (identity name : String) :
    ∀ a ∈ identityAttributes identity name, a.Plain := by
  have ids : identityAttribute.toList.all Attribute.isNameChar = true := by decide +kernel
  have names : nameAttribute.toList.all Attribute.isNameChar = true := by decide +kernel
  refine List.forall_mem_cons.2 ⟨?_, List.forall_mem_singleton.2 ?_⟩
  · exact ⟨by simp [identityAttribute], ids, not_mem_escapeAttribute (by decide) identity⟩
  · exact ⟨by simp [nameAttribute], names, not_mem_escapeAttribute (by decide) name⟩

/-! ## Reading them back -/

/-- What is in front of the first occurrence of a character is determined by the whole. -/
theorem append_cons_injective {c : Char} {xs ys xs' ys' : List Char} (hx : c ∉ xs) (hy : c ∉ ys)
    (h : xs ++ c :: xs' = ys ++ c :: ys') : xs = ys ∧ xs' = ys' := by
  have front : ∀ zs zs' : List Char, c ∉ zs → (zs ++ c :: zs').takeWhile (· != c) = zs := by
    intro zs zs' hz
    have before : ∀ d ∈ zs, (d != c) = true := by
      rintro d hd
      refine bne_iff_ne.2 ?_
      rintro rfl
      exact hz hd
    rw [List.takeWhile_append_of_pos before, List.takeWhile_cons_of_neg (by simp), List.append_nil]
  have same : xs = ys := by
    rw [← front xs xs' hx, ← front ys ys' hy, h]
  subst same
  exact ⟨rfl, List.cons_inj_right c |>.1 (List.append_cancel_left h)⟩

theorem Attribute.Plain.not_mem_name {a : Attribute} (h : a.Plain) : '=' ∉ a.name.toList := by
  intro hc
  exact absurd (List.all_eq_true.1 h.nameChars _ hc) (by decide)

/-- The first of plain attributes is read off their text. -/
theorem attributeText_append_injective {a b : Attribute} (ha : a.Plain) (hb : b.Plain) {xs ys : List Char}
    (h : a.text ++ xs = b.text ++ ys) : a = b ∧ xs = ys := by
  have spread : ∀ (c : Attribute) (zs : List Char),
      c.text ++ zs = ' ' :: (c.name.toList ++ '=' :: ('"' :: (c.value.toList ++ '"' :: zs))) := by
    intro c zs
    simp [Attribute.text]
  rw [spread, spread] at h
  obtain ⟨name, rest⟩ := append_cons_injective ha.not_mem_name hb.not_mem_name (List.cons.inj h).2
  obtain ⟨value, rest⟩ := append_cons_injective ha.value hb.value (List.cons.inj rest).2
  refine ⟨?_, rest⟩
  cases a
  cases b
  rw [Attribute.mk.injEq]
  exact ⟨String.toList_inj.1 name, String.toList_inj.1 value⟩

/-- Plain attributes are read off their text. -/
theorem attributesText_injective {as bs : List Attribute} (ha : ∀ a ∈ as, a.Plain)
    (hb : ∀ b ∈ bs, b.Plain) (h : attributesText as = attributesText bs) : as = bs := by
  induction as generalizing bs with
  | nil =>
    cases bs with
    | nil => rfl
    | cons b bs => simp [attributesText, Attribute.text] at h
  | cons a as ih =>
    cases bs with
    | nil => simp [attributesText, Attribute.text] at h
    | cons b bs =>
      obtain ⟨rfl, rest⟩ := attributeText_append_injective (ha a (by simp)) (hb b (by simp))
        (show a.text ++ attributesText as = b.text ++ attributesText bs from h)
      rw [ih (fun c hc => ha c (List.mem_cons_of_mem _ hc))
        (fun c hc => hb c (List.mem_cons_of_mem _ hc)) rest]

end InPlace.Tagging

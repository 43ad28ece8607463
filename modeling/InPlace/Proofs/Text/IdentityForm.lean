import InPlace.Proofs.Text.Identity
import Mathlib.Algebra.Group.Nat.Defs
import Mathlib.Data.List.Basic

/-!
# The form of an identity

Exactly the texts that consist of a path, a line and a column with colons between them are identities. Line and
column are runs of decimal digits that 32 bits hold, and zeros may stand in front of them; the path may be anything
but empty. Written anew an identity keeps its path, line and column, and its text if no zero stood in front.

Main statements: `number?_eq_some_iff`, `toString_numeralValue_iff` (which text of a number is the one that is
written), `parse?_eq_some_iff` and `parse?_forms`.
-/

namespace InPlace.Identity

/-! ## Numbers -/

/-- A run of decimal digits that 32 bits hold. -/
structure IsNumeral (s : String) : Prop where
  nonempty : s ≠ ""
  digits : ∀ c ∈ s.toList, c.isDigit = true
  small : Nat.ofDigitChars 10 s.toList 0 ≤ 2 ^ 32 - 1

/-- The number that a run of digits stands for. -/
def numeralValue (s : String) : UInt32 :=
  UInt32.ofNat (Nat.ofDigitChars 10 s.toList 0)

/-- A zero stands in front of other digits. -/
def Padded (s : String) : Prop :=
  ∃ rest, rest ≠ [] ∧ s.toList = '0' :: rest

theorem IsNumeral.toNat_value {s : String} (h : IsNumeral s) :
    (numeralValue s).toNat = Nat.ofDigitChars 10 s.toList 0 := by
  have small := h.small
  exact UInt32.toNat_ofNat_of_lt' (show _ < 2 ^ 32 by omega)

/-- A digit is taken if the number with it has 32 bits. -/
theorem of_pushDigit {c : Char} {n m : Nat} (h : pushDigit (some n) c = some m) :
    c.isDigit = true ∧ m < UInt32.size ∧ m = 10 * n + (c.toNat - '0'.toNat) := by
  rw [pushDigit, Option.bind_some, Option.ite_none_right_eq_some] at h
  obtain ⟨⟨digit, small⟩, value⟩ := h
  cases value
  exact ⟨digit, small, by rw [Nat.mul_comm]⟩

/-- What is read as a number consists of digits, and 32 bits hold it. -/
theorem of_foldl_pushDigit {cs : List Char} {n m : Nat} (hn : n < UInt32.size)
    (h : cs.foldl pushDigit (some n) = some m) :
    (∀ c ∈ cs, c.isDigit = true) ∧ m < UInt32.size ∧ m = Nat.ofDigitChars 10 cs n := by
  induction cs generalizing n with
  | nil =>
    cases h
    exact ⟨by simp, hn, rfl⟩
  | cons c cs ih =>
    rw [List.foldl_cons] at h
    cases pushed : pushDigit (some n) c with
    | none =>
      rw [pushed, List.foldl_fixed' fun _ => rfl] at h
      cases h
    | some k =>
      rw [pushed] at h
      obtain ⟨digit, small, value⟩ := of_pushDigit pushed
      obtain ⟨digits, hm, rfl⟩ := ih small h
      refine ⟨List.forall_mem_cons.2 ⟨digit, digits⟩, hm, ?_⟩
      rw [value, Nat.ofDigitChars_cons]

/-- Exactly the runs of digits that 32 bits hold stand for a number. -/
theorem number?_eq_some_iff {s : String} {n : UInt32} :
    number? s.toList = some n ↔ IsNumeral s ∧ n = numeralValue s := by
  unfold number?
  constructor
  · intro h
    split at h
    · cases h
    · rename_i nonempty
      obtain ⟨m, read, rfl⟩ := Option.map_eq_some_iff.1 h
      -- the digits are read one by one, and reading stops as soon as 32 bits do not hold the number
      obtain ⟨digits, small, rfl⟩ := of_foldl_pushDigit (by decide) read
      refine ⟨⟨?_, digits, Nat.le_sub_one_of_lt small⟩, rfl⟩
      rintro rfl
      exact nonempty rfl
  · rintro ⟨⟨nonempty, digits, small⟩, rfl⟩
    have written : s.toList.isEmpty = false :=
      List.isEmpty_eq_false_iff.2 fun hnil => nonempty (String.toList_eq_nil_iff.1 hnil)
    rw [written, foldl_pushDigit digits (show _ < 2 ^ 32 by omega)]
    rfl

/-! ## Zeros in front -/

theorem toNat_of_isDigit {c : Char} (h : c.isDigit = true) : 48 ≤ c.toNat ∧ c.toNat ≤ 57 := by
  unfold Char.isDigit at h
  rw [Bool.and_eq_true, decide_eq_true_iff, decide_eq_true_iff] at h
  exact h

theorem digitValue_lt {c : Char} (h : c.isDigit = true) : c.toNat - '0'.toNat < 10 := by
  have bounds := toNat_of_isDigit h
  show c.toNat - 48 < 10
  omega

theorem digitChar_digitValue {c : Char} (h : c.isDigit = true) :
    Nat.digitChar (c.toNat - '0'.toNat) = c := by
  have bounds := toNat_of_isDigit h
  apply Char.toNat_inj.1
  rw [Nat.toNat_digitChar_of_lt_ten (digitValue_lt h)]
  show 48 + (c.toNat - 48) = c.toNat
  omega

theorem toDigits_digitValue {c : Char} (h : c.isDigit = true) :
    Nat.toDigits 10 (c.toNat - '0'.toNat) = [c] := by
  rw [Nat.toDigits_of_lt_base (digitValue_lt h), digitChar_digitValue h]

theorem digitValue_pos {c : Char} (h : c.isDigit = true) (other : c ≠ '0') : 0 < c.toNat - '0'.toNat := by
  have bounds := toNat_of_isDigit h
  have code : c.toNat ≠ 48 := fun heq => other (Char.toNat_inj.1 heq)
  show 0 < c.toNat - 48
  omega

/-- Digits behind those of a number other than zero are the last digits of the number that they make together. -/
theorem toDigits_append {cs : List Char} (digits : ∀ c ∈ cs, c.isDigit = true) {n : Nat} (hn : 0 < n) :
    Nat.toDigits 10 n ++ cs = Nat.toDigits 10 (Nat.ofDigitChars 10 cs n) := by
  induction cs generalizing n with
  | nil => exact List.append_nil _
  | cons c cs ih =>
    obtain ⟨digit, digits⟩ := List.forall_mem_cons.1 digits
    calc Nat.toDigits 10 n ++ c :: cs
        = (Nat.toDigits 10 n ++ Nat.toDigits 10 (c.toNat - '0'.toNat)) ++ cs := by
          rw [toDigits_digitValue digit, List.append_assoc, List.singleton_append]
      _ = Nat.toDigits 10 (10 * n + (c.toNat - '0'.toNat)) ++ cs := by
          rw [Nat.toDigits_append_toDigits (by decide) hn (digitValue_lt digit)]
      _ = Nat.toDigits 10 (Nat.ofDigitChars 10 (c :: cs) n) := by
          rw [ih digits (by omega), Nat.ofDigitChars_cons]

/-- A number is below the power of ten with as many zeros as it has digits. -/
theorem ofDigitChars_lt {cs : List Char} (digits : ∀ c ∈ cs, c.isDigit = true) :
    Nat.ofDigitChars 10 cs 0 < 10 ^ cs.length := by
  induction cs with
  | nil => decide
  | cons c cs ih =>
    obtain ⟨digit, digits⟩ := List.forall_mem_cons.1 digits
    have later := ih digits
    have first := Nat.mul_le_mul_left (10 ^ cs.length) (Nat.le_of_lt_succ (digitValue_lt digit))
    rw [Nat.ofDigitChars_cons, Nat.ofDigitChars_eq_ofDigitChars_zero, Nat.mul_zero, Nat.zero_add,
      List.length_cons, Nat.pow_succ]
    omega

/-- Digits that begin with another one than zero are written as they are. -/
theorem toDigits_of_ne_zero {c : Char} {cs : List Char} (digits : ∀ d ∈ c :: cs, d.isDigit = true)
    (other : c ≠ '0') : Nat.toDigits 10 (Nat.ofDigitChars 10 (c :: cs) 0) = c :: cs := by
  obtain ⟨digit, digits⟩ := List.forall_mem_cons.1 digits
  rw [Nat.ofDigitChars_cons, Nat.mul_zero, Nat.zero_add,
    ← toDigits_append digits (digitValue_pos digit other), toDigits_digitValue digit]
  rfl

/-- A zero in front of digits is not written, as it adds nothing to the value. -/
theorem toDigits_ne_of_padded {cs : List Char} (digits : ∀ c ∈ cs, c.isDigit = true) (nonempty : cs ≠ []) :
    Nat.toDigits 10 (Nat.ofDigitChars 10 ('0' :: cs) 0) ≠ '0' :: cs := by
  intro same
  have value : Nat.ofDigitChars 10 ('0' :: cs) 0 = Nat.ofDigitChars 10 cs 0 := Nat.ofDigitChars_cons
  have short := (Nat.length_toDigits_le_iff (by decide) (List.length_pos_iff.2 nonempty)).2
    (ofDigitChars_lt digits)
  rw [← value, same, List.length_cons] at short
  omega

/-- A number is written as the digits it was read from, unless a zero stood in front of them. -/
theorem toString_numeralValue_iff {s : String} (h : IsNumeral s) :
    toString (numeralValue s).toNat = s ↔ ¬ Padded s := by
  have written : toString (numeralValue s).toNat = s ↔
      Nat.toDigits 10 (Nat.ofDigitChars 10 s.toList 0) = s.toList := by
    rw [h.toNat_value, Nat.toString_eq_ofList_toDigits, ← String.toList_inj, String.toList_ofList]
  have digits := h.digits
  rw [written]
  constructor
  · rintro same ⟨rest, nonempty, hs⟩
    rw [hs] at same digits
    exact toDigits_ne_of_padded (List.forall_mem_cons.1 digits).2 nonempty same
  · intro unpadded
    cases hs : s.toList with
    | nil => exact absurd (String.toList_eq_nil_iff.1 hs) h.nonempty
    | cons c rest =>
      rw [hs] at digits
      by_cases zero : c = '0'
      · subst zero
        have alone : rest = [] := by
          by_contra nonempty
          exact unpadded ⟨rest, nonempty, hs⟩
        subst alone
        decide
      · exact toDigits_of_ne_zero digits zero

/-! ## Parts -/

/-- The texts of a path, a line and a column. -/
structure Parts where
  path : String
  line : String
  column : String

namespace Parts

/-- The parts with colons between them. -/
def text (p : Parts) : String :=
  p.path ++ ":" ++ p.line ++ ":" ++ p.column

/-- Parts that make an identity. -/
structure Proper (p : Parts) : Prop where
  path : p.path ≠ ""
  line : IsNumeral p.line
  column : IsNumeral p.column

/-- The identity that the parts make. -/
def identity (p : Parts) : Identity :=
  ⟨p.text, p.path, numeralValue p.line, numeralValue p.column⟩

/-- The parts of the text of a place. -/
def ofPlace (path : String) (line column : UInt32) : Parts :=
  ⟨path, toString line.toNat, toString column.toNat⟩

theorem toList_text (p : Parts) :
    p.text.toList = (p.path.toList ++ ':' :: p.line.toList) ++ ':' :: p.column.toList := by
  simp [text, String.toList_append]

end Parts

theorem IsNumeral.not_mem {s : String} (h : IsNumeral s) : ':' ∉ s.toList := by
  intro hc
  exact absurd (h.digits _ hc) (by decide)

/-- A text is split at a colon with no colon behind it. -/
theorem of_splitLast? {cs before last : List Char} (h : splitLast? cs = some (before, last)) :
    cs = before ++ ':' :: last := by
  unfold splitLast? at h
  have whole := List.takeWhile_append_dropWhile (p := (· != ':')) (l := cs.reverse)
  cases rest : cs.reverse.dropWhile (· != ':') with
  | nil =>
    rw [rest] at h
    cases h
  | cons c turned =>
    -- turned around, the last colon is the first
    have colon : c = ':' := by
      have stop := List.head?_dropWhile_not (· != ':') cs.reverse
      rw [rest] at stop
      simpa using stop
    subst colon
    rw [rest] at h whole
    cases h
    calc cs = (cs.reverse.takeWhile (· != ':') ++ ':' :: turned).reverse := by
          rw [whole, List.reverse_reverse]
      _ = turned.reverse ++ ':' :: (cs.reverse.takeWhile (· != ':')).reverse := by
          rw [List.reverse_append, List.reverse_cons, List.append_assoc, List.singleton_append]

/-- Exactly the texts of proper parts are identities. -/
theorem parse?_eq_some_iff {s : String} {i : Identity} :
    parse? s = some i ↔ ∃ p : Parts, p.text = s ∧ p.Proper ∧ i = p.identity := by
  constructor
  · intro h
    unfold parse? at h
    simp only [Option.bind_eq_bind, Option.bind_eq_some_iff, Prod.exists] at h
    obtain ⟨before, column, outer, columnNumber, hcolumn, path, line, inner, lineNumber, hline, h⟩ := h
    split at h
    · cases h
    · rename_i named
      cases h
      have columnDigits : number? (String.ofList column).toList = some columnNumber := by
        rwa [String.toList_ofList]
      have lineDigits : number? (String.ofList line).toList = some lineNumber := by
        rwa [String.toList_ofList]
      obtain ⟨columnNumeral, columnValue⟩ := number?_eq_some_iff.1 columnDigits
      obtain ⟨lineNumeral, lineValue⟩ := number?_eq_some_iff.1 lineDigits
      have whole : Parts.text ⟨.ofList path, .ofList line, .ofList column⟩ = s := by
        rw [← String.toList_inj, Parts.toList_text, of_splitLast? outer, of_splitLast? inner]
        simp only [String.toList_ofList]
      refine ⟨⟨.ofList path, .ofList line, .ofList column⟩, whole, ⟨?_, lineNumeral, columnNumeral⟩, ?_⟩
      · intro hempty
        rw [← String.toList_inj, String.toList_ofList] at hempty
        exact named (List.isEmpty_iff.2 hempty)
      · rw [Parts.identity, whole, lineValue, columnValue]
  · rintro ⟨p, rfl, ⟨path, line, column⟩, rfl⟩
    have named : p.path.toList.isEmpty = false :=
      List.isEmpty_eq_false_iff.2 fun hnil => path (String.toList_eq_nil_iff.1 hnil)
    unfold parse?
    simp only [p.toList_text, splitLast?_append column.not_mem, splitLast?_append line.not_mem,
      number?_eq_some_iff.2 ⟨column, rfl⟩, number?_eq_some_iff.2 ⟨line, rfl⟩, named, Option.bind_eq_bind,
      Option.bind_some, Bool.false_eq_true, if_false, String.ofList_toList]
    rfl

/-- The parts of an identity can be told from its text. -/
theorem Parts.text_injective {p q : Parts} (hp : p.Proper) (hq : q.Proper) (h : p.text = q.text) : p = q := by
  have texts : p.text.toList = q.text.toList := congrArg String.toList h
  rw [p.toList_text, q.toList_text] at texts
  have outer := congrArg splitLast? texts
  rw [splitLast?_append hp.column.not_mem, splitLast?_append hq.column.not_mem] at outer
  obtain ⟨before, column⟩ := Prod.mk.inj (Option.some.inj outer)
  have inner := congrArg splitLast? before
  rw [splitLast?_append hp.line.not_mem, splitLast?_append hq.line.not_mem] at inner
  obtain ⟨path, line⟩ := Prod.mk.inj (Option.some.inj inner)
  cases p
  cases q
  simp only [String.toList_inj] at path line column
  rw [path, line, column]

theorem Parts.proper_ofPlace {path : String} (h : path ≠ "") (line column : UInt32) :
    (ofPlace path line column).Proper where
  path := h
  line := (number?_eq_some_iff.1 (number?_toString line)).1
  column := (number?_eq_some_iff.1 (number?_toString column)).1

/-- The text of an identity that is written anew is the one it was read from, unless a zero stood in front of its
line or its column. -/
theorem encoded_identity_iff {p : Parts} (h : p.Proper) :
    p.identity.encoded = p.text ↔ ¬ Padded p.line ∧ ¬ Padded p.column := by
  rw [← toString_numeralValue_iff h.line, ← toString_numeralValue_iff h.column]
  constructor
  · intro same
    have parts := Parts.text_injective (Parts.proper_ofPlace h.path p.identity.line p.identity.column) h same
    exact ⟨congrArg Parts.line parts, congrArg Parts.column parts⟩
  · rintro ⟨line, column⟩
    show Parts.text (.ofPlace p.path (numeralValue p.line) (numeralValue p.column)) = p.text
    rw [Parts.ofPlace, line, column]

/-- The text of a place stands for it, and exactly the texts of a path, a line and a column with colons between
them are identities: line and column are runs of digits, so that the colons are the last two. Written anew such an
identity keeps its place, and its text exactly if no zero stood in front of line or column. -/
theorem parse?_forms :
    (∀ (path : String) (line column : UInt32), path ≠ "" →
      parse? (encode path line column) = some ⟨encode path line column, path, line, column⟩) ∧
    ∀ s : String,
      ((∃ i, parse? s = some i) ↔ ∃! p : Parts, p.text = s ∧ p.Proper) ∧
      ∀ p : Parts, p.text = s → p.Proper →
        (':' ∉ p.line.toList ∧ ':' ∉ p.column.toList) ∧
        parse? s = some ⟨s, p.path, numeralValue p.line, numeralValue p.column⟩ ∧
        parse? p.identity.encoded =
          some ⟨p.identity.encoded, p.path, numeralValue p.line, numeralValue p.column⟩ ∧
        (p.identity.encoded = s ↔ ¬ Padded p.line ∧ ¬ Padded p.column) := by
  refine ⟨fun path line column named => parse?_encode named line column, fun s => ⟨?_, ?_⟩⟩
  · constructor
    · rintro ⟨i, h⟩
      obtain ⟨p, rfl, proper, -⟩ := parse?_eq_some_iff.1 h
      exact ⟨p, ⟨rfl, proper⟩, fun q hq => Parts.text_injective hq.2 proper hq.1⟩
    · rintro ⟨p, ⟨rfl, proper⟩, -⟩
      exact ⟨p.identity, parse?_eq_some_iff.2 ⟨p, rfl, proper, rfl⟩⟩
  · rintro p rfl proper
    exact ⟨⟨proper.line.not_mem, proper.column.not_mem⟩, parse?_eq_some_iff.2 ⟨p, rfl, proper, rfl⟩,
      parse?_encode proper.path _ _, encoded_identity_iff proper⟩

/-- A path with a colon and a line with zeros in front of it. -/
theorem parse?_forms_padded :
    Parts.text ⟨"C:/a.tsx", "007", "4"⟩ = "C:/a.tsx:007:4" ∧ Parts.Proper ⟨"C:/a.tsx", "007", "4"⟩ ∧
      parse? "C:/a.tsx:007:4" = some ⟨"C:/a.tsx:007:4", "C:/a.tsx", 7, 4⟩ ∧
      parse? (encode "C:/a.tsx" 7 4) = some ⟨encode "C:/a.tsx" 7 4, "C:/a.tsx", 7, 4⟩ ∧
      encode "C:/a.tsx" 7 4 ≠ "C:/a.tsx:007:4" := by
  have proper : Parts.Proper ⟨"C:/a.tsx", "007", "4"⟩ :=
    ⟨by decide, ⟨by decide, List.all_eq_true.1 (by decide), by decide⟩,
      ⟨by decide, List.all_eq_true.1 (by decide), by decide⟩⟩
  obtain ⟨-, read, -, same⟩ := (parse?_forms.2 "C:/a.tsx:007:4").2 _ (by decide) proper
  refine ⟨by decide, proper, read, parse?_forms.1 _ 7 4 (by decide), fun h => ?_⟩
  exact (same.1 h).1 ⟨['0', '7'], by decide, by decide⟩

end InPlace.Identity

import InPlace.Identity
import Mathlib.Data.List.TakeWhile

/-!
# Identities and their texts

The text of an identity stands for its parts, with any path: line and column are written in digits only, so the
last two colons are those in front of them.

Main statement: `parse?_encode`.
-/

namespace InPlace.Identity

/-! ## Numbers -/

theorem pushDigit_some {c : Char} {n : Nat} (hc : c.isDigit = true)
    (h : 10 * n + (c.toNat - '0'.toNat) < UInt32.size) :
    pushDigit (some n) c = some (10 * n + (c.toNat - '0'.toNat)) := by
  rw [Nat.mul_comm] at h ⊢
  exact if_pos ⟨hc, h⟩

theorem le_ofDigitChars (cs : List Char) (n : Nat) : n ≤ Nat.ofDigitChars 10 cs n := by
  induction cs generalizing n with
  | nil => exact Nat.le_refl n
  | cons c cs ih =>
    have later := ih (10 * n + (c.toNat - '0'.toNat))
    rw [Nat.ofDigitChars_cons]
    omega

/-- Digits are read to their value, as long as 32 bits hold it. -/
theorem foldl_pushDigit {cs : List Char} (digits : ∀ c ∈ cs, c.isDigit = true) {n : Nat}
    (h : Nat.ofDigitChars 10 cs n < UInt32.size) :
    cs.foldl pushDigit (some n) = some (Nat.ofDigitChars 10 cs n) := by
  induction cs generalizing n with
  | nil => rfl
  | cons c cs ih =>
    obtain ⟨digit, digits⟩ := List.forall_mem_cons.1 digits
    rw [Nat.ofDigitChars_cons] at h ⊢
    have small := Nat.lt_of_le_of_lt (le_ofDigitChars cs _) h
    rw [List.foldl_cons, pushDigit_some digit small, ih digits h]

theorem isDigit_of_mem_toString {n : Nat} {c : Char} (h : c ∈ (toString n).toList) : c.isDigit = true := by
  rw [Nat.toString_eq_ofList_toDigits, String.toList_ofList] at h
  exact Nat.isDigit_of_mem_toDigits (by decide) (by decide) h

/-- A number is read back from its text. -/
theorem number?_toString (n : UInt32) : number? (toString n.toNat).toList = some n := by
  have value : Nat.ofDigitChars 10 (Nat.toDigits 10 n.toNat) 0 = n.toNat :=
    Nat.ofDigitChars_ten_toDigits
  have digits : ∀ c ∈ (toString n.toNat).toList, c.isDigit = true := fun c => isDigit_of_mem_toString
  have nonempty : (Nat.toDigits 10 n.toNat).isEmpty = false :=
    List.isEmpty_eq_false_iff.2 Nat.toDigits_ne_nil
  rw [Nat.toString_eq_ofList_toDigits, String.toList_ofList] at digits ⊢
  rw [number?, nonempty, foldl_pushDigit digits (by rw [value]; exact n.toNat_lt), value]
  exact congrArg some UInt32.ofNat_toNat

/-! ## Parts -/

/-- Behind the last colon stands what has no colon. -/
theorem splitLast?_append {before last : List Char} (h : ':' ∉ last) :
    splitLast? (before ++ ':' :: last) = some (before, last) := by
  have plain : ∀ c ∈ last.reverse, (c != ':') = true := by
    rintro c hc
    refine bne_iff_ne.2 ?_
    rintro rfl
    exact h (List.mem_reverse.1 hc)
  have turned : (before ++ ':' :: last).reverse = last.reverse ++ ':' :: before.reverse := by
    simp
  unfold splitLast?
  rw [turned, List.takeWhile_append_of_pos plain, List.dropWhile_append_of_pos plain,
    List.takeWhile_cons_of_neg (by simp), List.dropWhile_cons_of_neg (by simp), List.append_nil]
  simp only [List.reverse_reverse]

theorem not_mem_toString (n : Nat) : ':' ∉ (toString n).toList := by
  intro h
  exact absurd (isDigit_of_mem_toString h) (by decide)

/-- The text of an identity stands for its parts. -/
theorem parse?_encode {path : String} (h : path ≠ "") (line column : UInt32) :
    parse? (encode path line column) = some (ofPlace path line column) := by
  have text : (encode path line column).toList =
      (path.toList ++ ':' :: (toString line.toNat).toList) ++ ':' :: (toString column.toNat).toList := by
    simp [encode, String.toList_append]
  have named : path.toList.isEmpty = false :=
    List.isEmpty_eq_false_iff.2 fun hnil => h (String.toList_eq_nil_iff.1 hnil)
  unfold parse?
  simp only [text, splitLast?_append (not_mem_toString _), number?_toString, named, Option.bind_eq_bind,
    Option.bind_some, Bool.false_eq_true, if_false, String.ofList_toList]
  rfl

end InPlace.Identity

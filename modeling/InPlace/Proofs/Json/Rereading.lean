import InPlace.Json.Printer
import InPlace.Json.Reader
import Mathlib.Data.List.DropRight

/-!
# Values that are read back

The text that is printed for a value without numbers, on several lines and with its controls and quotes escaped, is read
as this value. The reader gets by with a bound that is more than the length of the text, since each step of it takes a
character of the text away.

Main statements: `readText_quote` (a text), `parse?_pretty` (a value) and `parseRecord?_pretty` (an object of which all
fields are asked for).
-/

namespace InPlace.Json

variable {strict : Bool} {n level : Nat} {cs rest tail : List Char}

/-! ## Texts -/

theorem hexValue_hexDigit : ∀ n < 16, hexValue (hexDigit n) = some n := by
  decide

theorem readTextStep_of_plain {c : Char} (quote : c ≠ '"') (backslash : c ≠ '\\') (control : ¬ c.toNat < 0x20) :
    readTextStep strict (c :: cs) = .char c cs := by
  unfold readTextStep
  split <;> simp_all

/-- A control character is read back from its number. -/
theorem readUnicode_control {c : Char} (control : c.toNat < 0x20) :
    readUnicode strict ('0' :: '0' :: hexDigit (c.toNat / 16) :: hexDigit (c.toNat % 16) :: cs) = .char c cs := by
  have zero : hexValue '0' = some 0 := by decide
  have high := hexValue_hexDigit (c.toNat / 16) (by omega)
  have low := hexValue_hexDigit (c.toNat % 16) (by omega)
  have number : ((0 * 16 + 0) * 16 + c.toNat / 16) * 16 + c.toNat % 16 = c.toNat := by omega
  have digits : readHex4 ('0' :: '0' :: hexDigit (c.toNat / 16) :: hexDigit (c.toNat % 16) :: cs) =
      some (c.toNat, cs) := by
    rw [readHex4, zero, high, low]
    exact congrArg (fun n => some (n, cs)) number
  rw [readUnicode, digits]
  dsimp only
  rw [if_neg (by omega), if_neg (by omega), Char.ofNat_toNat]

/-- What stands for a character in a text is read as this character. -/
theorem readTextStep_escapeChar (c : Char) : readTextStep strict (escapeChar c ++ cs) = .char c cs := by
  unfold escapeChar
  split
  · rfl
  · rfl
  · rfl
  · rfl
  · rfl
  · rfl
  · rfl
  · rename_i quote backslash _ _ _ _ _
    split
    · rename_i control
      exact readUnicode_control control
    · rename_i control
      exact readTextStep_of_plain quote backslash control

/-- A text is read back from its escaped characters. -/
theorem readChars_escaped (s : List Char) (hn : s.length < n) :
    readChars strict n (s.flatMap escapeChar ++ '"' :: rest) = some (s, rest) := by
  induction s generalizing n with
  | nil =>
    obtain ⟨n, rfl⟩ := Nat.exists_eq_succ_of_ne_zero (Nat.ne_zero_of_lt hn)
    rfl
  | cons c s ih =>
    obtain ⟨n, rfl⟩ := Nat.exists_eq_succ_of_ne_zero (Nat.ne_zero_of_lt hn)
    rw [List.flatMap_cons, List.append_assoc, readChars, readTextStep_escapeChar]
    dsimp only
    rw [ih (Nat.lt_of_succ_lt_succ hn)]
    rfl

/-- Escaped characters are not fewer. -/
theorem length_le_flatMap_escapeChar (s : List Char) : s.length ≤ (s.flatMap escapeChar).length := by
  induction s with
  | nil => exact Nat.le_refl 0
  | cons c s ih =>
    have visible : 1 ≤ (escapeChar c).length := by
      unfold escapeChar
      split
      all_goals first | exact Nat.le_add_left 1 _ | (split <;> exact Nat.le_add_left 1 _)
    rw [List.flatMap_cons, List.length_append, List.length_cons]
    omega

/-- A text in quotes is read back, whatever comes after it. -/
theorem readText_quote (s : String) (rest : List Char) :
    readText strict (s.toList.flatMap escapeChar ++ '"' :: rest) = some (s, rest) := by
  have long : s.toList.length < (s.toList.flatMap escapeChar ++ '"' :: rest).length + 1 := by
    have := length_le_flatMap_escapeChar s.toList
    rw [List.length_append]
    omega
  rw [readText, readChars_escaped s.toList long, Option.map_some]
  exact congrArg (fun t => some (t, rest)) (String.ofList_toList)

theorem toList_quote (s : String) : (quote s).toList = '"' :: (s.toList.flatMap escapeChar ++ ['"']) := by
  simp [quote]

/-! ## White space -/

theorem skipSpace_newline (cs : List Char) : skipSpace ('\n' :: cs) = skipSpace cs :=
  rfl

theorem skipSpace_indent (level : Nat) (cs : List Char) : skipSpace ((indent level).toList ++ cs) = skipSpace cs := by
  have spaces : ∀ k, skipSpace (List.replicate k ' ' ++ cs) = skipSpace cs := by
    intro k
    induction k with
    | zero => rfl
    | succ k ih => exact ih
  rw [indent, String.toList_ofList]
  exact spaces _

theorem skipSpace_skipSpace (cs : List Char) : skipSpace (skipSpace cs) = skipSpace cs :=
  List.dropWhile_idempotent ..

/-- A reader of values does not see white space in front. -/
theorem readValue_skipSpace (n : Nat) (strict : Bool) (cs : List Char) :
    readValue n strict (skipSpace cs) = readValue n strict cs := by
  cases n with
  | zero => rfl
  | succ n => rw [readValue, readValue, skipSpace_skipSpace]

theorem readMembers_skipSpace (n : Nat) (asked : String → Bool) (cs : List Char) :
    readMembers n asked (skipSpace cs) = readMembers n asked cs := by
  cases n with
  | zero => rfl
  | succ n => rw [readMembers, readMembers, skipSpace_skipSpace]

theorem readItems_skipSpace (n : Nat) (strict : Bool) (cs : List Char) :
    readItems n strict (skipSpace cs) = readItems n strict cs := by
  cases n with
  | zero => rfl
  | succ n => rw [readItems, readItems, readValue_skipSpace]

/-! ## Values -/

mutual

/-- Whether a value is made of texts, truth values and nulls alone. -/
def numberless : Json → Bool
  | int _ | float _ => false
  | arr items => numberlessItems items
  | obj fields => numberlessFields fields
  | null | bool _ | str _ => true

/-- Whether there is no number in any item. -/
def numberlessItems : List Json → Bool
  | [] => true
  | j :: js => j.numberless && numberlessItems js

/-- Whether there is no number in any field. -/
def numberlessFields : List (String × Json) → Bool
  | [] => true
  | (_, j) :: fs => j.numberless && numberlessFields fs

end

/-! ### The texts of values -/

section

variable {k : String} {j : Json} {js : List Json} {f : String × Json} {fs : List (String × Json)}

theorem toList_prettyAt_arr : ((arr (j :: js)).prettyAt level).toList =
    '[' :: '\n' :: ((prettyItems (level + 1) (j :: js)).toList ++ '\n' :: ((indent level).toList ++ [']'])) := by
  rw [prettyAt]
  simp

theorem toList_prettyAt_obj : ((obj (f :: fs)).prettyAt level).toList =
    '\x7b' :: '\n' :: ((prettyFields (level + 1) (f :: fs)).toList ++
      '\n' :: ((indent level).toList ++ ['\x7d'])) := by
  rw [prettyAt]
  simp

theorem toList_prettyItems_cons {j' : Json} : (prettyItems level (j :: j' :: js)).toList =
    (indent level).toList ++ ((j.prettyAt level).toList ++ ',' :: '\n' :: (prettyItems level (j' :: js)).toList) := by
  rw [prettyItems]
  · simp
  · exact nofun

theorem toList_prettyFields_singleton : (prettyFields level [(k, j)]).toList =
    (indent level).toList ++ ('"' :: (k.toList.flatMap escapeChar ++ '"' :: ':' :: ' ' ::
      (j.prettyAt level).toList)) := by
  rw [prettyFields]
  simp [toList_quote]

theorem toList_prettyFields_cons : (prettyFields level ((k, j) :: f :: fs)).toList =
    (indent level).toList ++ ('"' :: (k.toList.flatMap escapeChar ++ '"' :: ':' :: ' ' ::
      ((j.prettyAt level).toList ++ ',' :: '\n' :: (prettyFields level (f :: fs)).toList))) := by
  rw [prettyFields]
  · simp [toList_quote]
  · exact nofun

end

/-- The text of a value without numbers begins with a character that is neither white space nor a closing bracket. -/
theorem exists_toList_prettyAt (level : Nat) {j : Json} (hj : j.numberless = true) :
    ∃ c cs, (j.prettyAt level).toList = c :: cs ∧ c ≠ ']' ∧ ∀ cs, skipSpace (c :: cs) = c :: cs := by
  cases j with
  | null => exact ⟨'n', "ull".toList, by rw [prettyAt]; rfl, by decide, fun _ => rfl⟩
  | bool b =>
    cases b with
    | true => exact ⟨'t', "rue".toList, by rw [prettyAt]; rfl, by decide, fun _ => rfl⟩
    | false => exact ⟨'f', "alse".toList, by rw [prettyAt]; rfl, by decide, fun _ => rfl⟩
  | int i => cases hj
  | float x => cases hj
  | str s => exact ⟨'"', _, by rw [prettyAt]; exact toList_quote s, by decide, fun _ => rfl⟩
  | arr items =>
    cases items with
    | nil => exact ⟨'[', "]".toList, by rw [prettyAt]; rfl, by decide, fun _ => rfl⟩
    | cons j js => exact ⟨'[', _, toList_prettyAt_arr, by decide, fun _ => rfl⟩
  | obj fields =>
    cases fields with
    | nil => exact ⟨'\x7b', "\x7d".toList, by rw [prettyAt]; rfl, by decide, fun _ => rfl⟩
    | cons f fs => exact ⟨'\x7b', _, toList_prettyAt_obj, by decide, fun _ => rfl⟩

/-! ### One step of the reader -/

section

variable {j : Json} {js : List Json} {k s : String} {f : String × Json} {fs : List (String × Json)}
  {asked : String → Bool}

/-- Printed items begin with the first one, on a line of its own. -/
theorem exists_toList_prettyItems (level : Nat) (j : Json) (js : List Json) : ∃ more,
    (prettyItems level (j :: js)).toList = (indent level).toList ++ ((j.prettyAt level).toList ++ more) := by
  cases js with
  | nil =>
    refine ⟨[], ?_⟩
    rw [prettyItems, String.toList_append, List.append_nil]
  | cons j' js => exact ⟨_, toList_prettyItems_cons⟩

/-- Items begin with a value. -/
theorem exists_skipSpace_prettyItems (level : Nat) (js : List Json) (hj : j.numberless = true) (tail : List Char) :
    ∃ c cs, skipSpace ((prettyItems level (j :: js)).toList ++ tail) = c :: cs ∧ c ≠ ']' := by
  obtain ⟨c, cs, first, other, visible⟩ := exists_toList_prettyAt level hj
  obtain ⟨more, text⟩ := exists_toList_prettyItems level j js
  refine ⟨c, cs ++ more ++ tail, ?_, other⟩
  rw [text, List.append_assoc, skipSpace_indent, first]
  exact visible _

theorem readItems_newline (n : Nat) (strict : Bool) (cs : List Char) :
    readItems n strict ('\n' :: cs) = readItems n strict cs := by
  rw [← readItems_skipSpace, skipSpace_newline, readItems_skipSpace]

theorem readMembers_newline (n : Nat) (asked : String → Bool) (cs : List Char) :
    readMembers n asked ('\n' :: cs) = readMembers n asked cs := by
  rw [← readMembers_skipSpace, skipSpace_newline, readMembers_skipSpace]

/-! ### What comes after a bracket, a brace or a quote

Both sides of these equations are the same only after the first character has been looked at, which `rw` does not do. -/

theorem readValue_bracket (cs : List Char) : readValue (n + 1) strict ('[' :: cs) =
    match skipSpace cs with
    | ']' :: rest => some (arr [], rest)
    | cs => (readItems n strict cs).map fun (js, rest) => (arr js, rest) := by
  rewrite [readValue]
  rfl

theorem readValue_brace (cs : List Char) : readValue (n + 1) strict ('\x7b' :: cs) =
    match skipSpace cs with
    | '\x7d' :: rest => some (obj [], rest)
    | cs => (readMembers n (fun _ => strict) cs).map fun (fs, rest) => (obj fs, rest) := by
  rewrite [readValue]
  rfl

/-- Members are read by a name, a colon, a value and what follows. -/
theorem readMembers_quote (cs : List Char) : readMembers (n + 1) asked ('"' :: cs) =
    match readText true cs with
    | none => none
    | some (k, rest) =>
      match skipSpace rest with
      | ':' :: rest =>
        match readValue n (asked k) rest with
        | none => none
        | some (j, rest) =>
          match skipSpace rest with
          | '\x7d' :: rest => some ([(k, j)], rest)
          | ',' :: rest => (readMembers n asked rest).map fun (fs, rest) => ((k, j) :: fs, rest)
          | _ => none
      | _ => none := by
  rewrite [readMembers]
  rfl

theorem parseRecord?_brace {names : List String} {s : String} (text : s.toList = '\x7b' :: cs) :
    parseRecord? names s =
      match (match skipSpace cs with
        | '\x7d' :: rest => some ([], rest)
        | cs => readMembers (s.length + 1) names.contains cs) with
      | some (fs, rest) => if (skipSpace rest).isEmpty then some (obj (fs.filter fun f => names.contains f.1)) else none
      | none => none := by
  rewrite [parseRecord?, text]
  rfl

theorem parseRecord?_of_members {names : List String} {s : String} (text : s.toList = '\x7b' :: cs)
    (first : skipSpace cs = '"' :: rest)
    (members : readMembers (s.length + 1) names.contains ('"' :: rest) = some (fs, [])) :
    parseRecord? names s = some (obj (fs.filter fun f => names.contains f.1)) := by
  rw [parseRecord?_brace text, first]
  split
  · rename_i read
    cases members.symm.trans read
    rfl
  · rename_i read
    cases members.symm.trans read

/-! ### Values, items and fields -/

/-- A printed text is read back as a value. -/
theorem readValue_str : readValue (n + 1) strict ((prettyAt level (str s)).toList ++ rest) = some (str s, rest) := by
  have text : (prettyAt level (str s)).toList ++ rest = '"' :: (s.toList.flatMap escapeChar ++ '"' :: rest) := by
    rw [prettyAt, toList_quote]
    simp
  rw [text]
  show (readText strict _).map _ = _
  rw [readText_quote]
  rfl

/-- A list is read back if its items are. -/
theorem readValue_arr (hj : j.numberless = true) (items : readItems n strict
    ((prettyItems (level + 1) (j :: js)).toList ++ '\n' :: ((indent level).toList ++ ']' :: rest)) = some (j :: js, rest)) :
    readValue (n + 1) strict (((arr (j :: js)).prettyAt level).toList ++ rest) = some (arr (j :: js), rest) := by
  obtain ⟨c, cs, first, other⟩ := exists_skipSpace_prettyItems (level + 1) js hj
    ('\n' :: ((indent level).toList ++ ']' :: rest))
  have text : ((arr (j :: js)).prettyAt level).toList ++ rest = '[' :: '\n' ::
      ((prettyItems (level + 1) (j :: js)).toList ++ '\n' :: ((indent level).toList ++ ']' :: rest)) := by
    rw [toList_prettyAt_arr]
    simp
  rw [← readItems_skipSpace, first] at items
  rw [text, readValue_bracket, skipSpace_newline, first]
  split
  · rename_i closed
    exact absurd (List.cons.inj closed).1 other
  · rw [items]
    rfl

/-- The last item of a list. -/
theorem readItems_singleton (item : readValue n strict ((j.prettyAt level).toList ++ tail) = some (j, tail))
    (closed : skipSpace tail = ']' :: rest) :
    readItems (n + 1) strict ((prettyItems level [j]).toList ++ tail) = some ([j], rest) := by
  have first : readValue n strict ((prettyItems level [j]).toList ++ tail) = some (j, tail) := by
    rw [prettyItems, String.toList_append, List.append_assoc, ← readValue_skipSpace, skipSpace_indent,
      readValue_skipSpace, item]
  rw [readItems, first]
  dsimp only
  rw [closed]
  rfl

/-- Another item in front of a list. -/
theorem readItems_cons {j' : Json} (item : ∀ rest, readValue n strict ((j.prettyAt level).toList ++ rest) = some (j, rest))
    (items : readItems n strict ((prettyItems level (j' :: js)).toList ++ tail) = some (j' :: js, rest)) :
    readItems (n + 1) strict ((prettyItems level (j :: j' :: js)).toList ++ tail) = some (j :: j' :: js, rest) := by
  have first : readValue n strict ((prettyItems level (j :: j' :: js)).toList ++ tail) =
      some (j, ',' :: '\n' :: ((prettyItems level (j' :: js)).toList ++ tail)) := by
    rw [toList_prettyItems_cons, List.append_assoc, ← readValue_skipSpace, skipSpace_indent, readValue_skipSpace,
      List.append_assoc, item]
    rfl
  rw [readItems, first]
  show (readItems n strict ('\n' :: _)).map _ = _
  rw [readItems_newline, items]
  rfl

/-- A field is read back if its value is. -/
theorem readMember (value : readValue n (asked k) ((j.prettyAt level).toList ++ tail) = some (j, tail)) :
    readMembers (n + 1) asked ((indent level).toList ++ '"' :: (k.toList.flatMap escapeChar ++ '"' :: ':' :: ' ' ::
      ((j.prettyAt level).toList ++ tail))) =
        match skipSpace tail with
        | '\x7d' :: rest => some ([(k, j)], rest)
        | ',' :: rest => (readMembers n asked rest).map fun (fs, rest) => ((k, j) :: fs, rest)
        | _ => none := by
  have key : readText true (k.toList.flatMap escapeChar ++ '"' :: _) = _ :=
    readText_quote k (':' :: ' ' :: ((j.prettyAt level).toList ++ tail))
  have spaced : readValue n (asked k) (' ' :: ((j.prettyAt level).toList ++ tail)) = some (j, tail) := by
    rw [← value, ← readValue_skipSpace, ← readValue_skipSpace n _ ((j.prettyAt level).toList ++ tail)]
    rfl
  have colon : skipSpace (':' :: ' ' :: ((j.prettyAt level).toList ++ tail)) =
      ':' :: ' ' :: ((j.prettyAt level).toList ++ tail) := rfl
  rw [← readMembers_skipSpace, skipSpace_indent, readMembers_skipSpace, readMembers_quote, key]
  simp only [colon, spaced]

/-- The last field of an object. -/
theorem readMembers_singleton (value : readValue n (asked k) ((j.prettyAt level).toList ++ tail) = some (j, tail))
    (closed : skipSpace tail = '\x7d' :: rest) :
    readMembers (n + 1) asked ((prettyFields level [(k, j)]).toList ++ tail) = some ([(k, j)], rest) := by
  have text : (prettyFields level [(k, j)]).toList ++ tail = (indent level).toList ++ '"' ::
      (k.toList.flatMap escapeChar ++ '"' :: ':' :: ' ' :: ((j.prettyAt level).toList ++ tail)) := by
    rw [toList_prettyFields_singleton]
    simp
  rw [text, readMember value, closed]
  rfl

/-- Another field in front of an object. -/
theorem readMembers_cons
    (value : ∀ rest, readValue n (asked k) ((j.prettyAt level).toList ++ rest) = some (j, rest))
    (fields : readMembers n asked ((prettyFields level (f :: fs)).toList ++ tail) = some (f :: fs, rest)) :
    readMembers (n + 1) asked ((prettyFields level ((k, j) :: f :: fs)).toList ++ tail) =
      some ((k, j) :: f :: fs, rest) := by
  have text : (prettyFields level ((k, j) :: f :: fs)).toList ++ tail = (indent level).toList ++ '"' ::
      (k.toList.flatMap escapeChar ++ '"' :: ':' :: ' ' :: ((j.prettyAt level).toList ++
        ',' :: '\n' :: ((prettyFields level (f :: fs)).toList ++ tail))) := by
    rw [toList_prettyFields_cons]
    simp
  rw [text, readMember (value _)]
  show (readMembers n asked ('\n' :: _)).map _ = _
  rw [readMembers_newline, fields]
  rfl

/-- Fields begin with a quote. -/
theorem exists_skipSpace_prettyFields (level : Nat) (f : String × Json) (fs : List (String × Json)) (tail : List Char) :
    ∃ cs, skipSpace ((prettyFields level (f :: fs)).toList ++ tail) = '"' :: cs := by
  obtain ⟨k, j⟩ := f
  cases fs with
  | nil =>
    rw [toList_prettyFields_singleton, List.append_assoc, skipSpace_indent]
    exact ⟨_, rfl⟩
  | cons f fs =>
    rw [toList_prettyFields_cons, List.append_assoc, skipSpace_indent]
    exact ⟨_, rfl⟩

/-- An object is read back if its fields are. -/
theorem readValue_obj (fields : readMembers n (fun _ => strict) ((prettyFields (level + 1) (f :: fs)).toList ++
      '\n' :: ((indent level).toList ++ '\x7d' :: rest)) = some (f :: fs, rest)) :
    readValue (n + 1) strict (((obj (f :: fs)).prettyAt level).toList ++ rest) = some (obj (f :: fs), rest) := by
  obtain ⟨cs, first⟩ := exists_skipSpace_prettyFields (level + 1) f fs
    ('\n' :: ((indent level).toList ++ '\x7d' :: rest))
  have text : ((obj (f :: fs)).prettyAt level).toList ++ rest = '\x7b' :: '\n' ::
      ((prettyFields (level + 1) (f :: fs)).toList ++ '\n' :: ((indent level).toList ++ '\x7d' :: rest)) := by
    rw [toList_prettyAt_obj]
    simp
  rw [← readMembers_skipSpace, first] at fields
  rw [text, readValue_brace, skipSpace_newline, first]
  show (readMembers n (fun _ => strict) ('"' :: cs)).map _ = _
  rw [fields]
  rfl

end

/-! ### Values that are read back -/

theorem length_indent (level : Nat) : (indent level).toList.length = 2 * level := by
  rw [indent, String.toList_ofList, List.length_replicate]

theorem skipSpace_closing (level : Nat) (c : Char) (rest : List Char) (visible : ∀ cs, skipSpace (c :: cs) = c :: cs) :
    skipSpace ('\n' :: ((indent level).toList ++ c :: rest)) = c :: rest := by
  rw [skipSpace_newline, skipSpace_indent, visible]

/-- A reader with this bound reads back what values, items and fields without numbers are written as, whatever comes
after them, if the bound is more than the length of the text. -/
structure ReadsBack (n : Nat) : Prop where
  value : ∀ {j : Json} {level : Nat} (strict : Bool) (rest : List Char), j.numberless = true →
    (j.prettyAt level).toList.length < n → readValue n strict ((j.prettyAt level).toList ++ rest) = some (j, rest)
  items : ∀ {j : Json} {js : List Json} {level : Nat} (strict : Bool) {tail rest : List Char},
    numberlessItems (j :: js) = true → (prettyItems (level + 1) (j :: js)).toList.length < n →
      skipSpace tail = ']' :: rest →
        readItems n strict ((prettyItems (level + 1) (j :: js)).toList ++ tail) = some (j :: js, rest)
  members : ∀ {f : String × Json} {fs : List (String × Json)} {level : Nat} (asked : String → Bool)
    {tail rest : List Char}, numberlessFields (f :: fs) = true →
      (prettyFields (level + 1) (f :: fs)).toList.length < n → skipSpace tail = '\x7d' :: rest →
        readMembers n asked ((prettyFields (level + 1) (f :: fs)).toList ++ tail) = some (f :: fs, rest)

namespace ReadsBack

variable {j : Json} {js : List Json} {f : String × Json} {fs : List (String × Json)}

/-- A value is read back with one more turn, if what is in it is with fewer. -/
theorem value_succ (h : ReadsBack n) (hj : j.numberless = true) (hn : (j.prettyAt level).toList.length < n + 1) :
    readValue (n + 1) strict ((j.prettyAt level).toList ++ rest) = some (j, rest) := by
  -- what is inside of an array or an object is shorter than the whole, and is read back by what is known of less
  cases j with
  | null =>
    rw [prettyAt]
    rfl
  | bool b =>
    cases b <;>
    · rw [prettyAt]
      rfl
  | int i => simp [numberless] at hj
  | float x => simp [numberless] at hj
  | str s => exact readValue_str
  | arr items =>
    cases items with
    | nil =>
      rw [prettyAt]
      rfl
    | cons j js =>
      have items : numberlessItems (j :: js) = true := by simpa [numberless] using hj
      have first : j.numberless = true ∧ numberlessItems js = true := by simpa [numberlessItems] using items
      rw [toList_prettyAt_arr] at hn
      simp only [List.length_cons, List.length_append] at hn
      exact readValue_arr first.1
        (h.items strict items (by omega) (skipSpace_closing level ']' rest fun _ => rfl))
  | obj fields =>
    cases fields with
    | nil =>
      rw [prettyAt]
      rfl
    | cons f fs =>
      have fields : numberlessFields (f :: fs) = true := by simpa [numberless] using hj
      rw [toList_prettyAt_obj] at hn
      simp only [List.length_cons, List.length_append] at hn
      exact readValue_obj (h.members _ fields (by omega) (skipSpace_closing level '\x7d' rest fun _ => rfl))

/-- Items are read back with one more turn. -/
theorem items_succ (h : ReadsBack n) (hj : numberlessItems (j :: js) = true)
    (hn : (prettyItems (level + 1) (j :: js)).toList.length < n + 1) (closed : skipSpace tail = ']' :: rest) :
    readItems (n + 1) strict ((prettyItems (level + 1) (j :: js)).toList ++ tail) = some (j :: js, rest) := by
  have parts : j.numberless = true ∧ numberlessItems js = true := by simpa [numberlessItems] using hj
  cases js with
  | nil =>
    rw [prettyItems, String.toList_append, List.length_append, length_indent] at hn
    exact readItems_singleton (h.value strict tail parts.1 (by omega)) closed
  | cons j' js =>
    rw [toList_prettyItems_cons] at hn
    simp only [List.length_append, List.length_cons, length_indent] at hn
    exact readItems_cons (fun more => h.value strict more parts.1 (by omega))
      (h.items strict parts.2 (by omega) closed)

/-- Members are read back with one more turn. -/
theorem members_succ {asked : String → Bool} (h : ReadsBack n) (hf : numberlessFields (f :: fs) = true)
    (hn : (prettyFields (level + 1) (f :: fs)).toList.length < n + 1) (closed : skipSpace tail = '\x7d' :: rest) :
    readMembers (n + 1) asked ((prettyFields (level + 1) (f :: fs)).toList ++ tail) = some (f :: fs, rest) := by
  obtain ⟨k, j⟩ := f
  have parts : j.numberless = true ∧ numberlessFields fs = true := by simpa [numberlessFields] using hf
  cases fs with
  | nil =>
    rw [toList_prettyFields_singleton] at hn
    simp only [List.length_append, List.length_cons, length_indent] at hn
    exact readMembers_singleton (h.value _ tail parts.1 (by omega)) closed
  | cons f fs =>
    rw [toList_prettyFields_cons] at hn
    simp only [List.length_append, List.length_cons, length_indent] at hn
    exact readMembers_cons (fun more => h.value _ more parts.1 (by omega)) (h.members asked parts.2 (by omega) closed)

end ReadsBack

theorem readsBack (n : Nat) : ReadsBack n := by
  -- on the bound, since the text of each part is shorter than the text that it is in
  induction n with
  | zero => exact ⟨fun _ _ _ => nofun, fun _ _ _ _ => nofun, fun _ _ _ _ => nofun⟩
  | succ n h =>
    exact ⟨fun _ _ => h.value_succ, fun _ _ _ => h.items_succ, fun _ _ _ => h.members_succ⟩

/-! ### Whole texts -/

/-- The text of a value without numbers is the text of this value. -/
theorem parse?_pretty {j : Json} (hj : j.numberless = true) : parse? j.pretty = some j := by
  have read : readValue _ true ((j.prettyAt 0).toList ++ []) = some (j, []) :=
    (readsBack (j.pretty.length + 1)).value true [] hj (Nat.lt_succ_self _)
  rw [List.append_nil] at read
  unfold parse?
  rw [show j.pretty.toList = (j.prettyAt 0).toList from rfl, read]
  rfl

/-- Of an object all fields are read that are asked for. -/
theorem parseRecord?_pretty {names : List String} {f : String × Json} {fs : List (String × Json)}
    (hfs : numberlessFields (f :: fs) = true) (asked : ∀ g ∈ f :: fs, g.1 ∈ names) :
    parseRecord? names (obj (f :: fs)).pretty = some (obj (f :: fs)) := by
  have text : (obj (f :: fs)).pretty.toList = '\x7b' :: '\n' ::
      ((prettyFields 1 (f :: fs)).toList ++ '\n' :: ((indent 0).toList ++ ['\x7d'])) := toList_prettyAt_obj
  have long : (prettyFields 1 (f :: fs)).toList.length < (obj (f :: fs)).pretty.length + 1 := by
    rw [← String.length_toList, text]
    simp only [List.length_cons, List.length_append]
    omega
  have read : readMembers _ names.contains ((prettyFields 1 (f :: fs)).toList ++ _) = some (f :: fs, []) :=
    (readsBack _).members names.contains hfs long (skipSpace_closing 0 '\x7d' [] fun _ => rfl)
  obtain ⟨cs, first⟩ := exists_skipSpace_prettyFields 1 f fs ('\n' :: ((indent 0).toList ++ ['\x7d']))
  rw [← readMembers_skipSpace, first] at read
  have all : (f :: fs).filter (fun g => names.contains g.1) = f :: fs :=
    List.filter_eq_self.2 fun g hg => List.contains_iff_mem.2 (asked g hg)
  rw [parseRecord?_of_members text ((skipSpace_newline _).trans first) read, all]

/-! ## Lists of texts -/

theorem strings?_ofStrings (ss : List String) : strings? (ofStrings ss) = some ss := by
  rw [ofStrings, strings?, List.mapM_map]
  exact List.mapM_pure.trans (congrArg some (List.map_id ss))

theorem numberlessItems_map_str (ss : List String) : numberlessItems (ss.map str) = true := by
  induction ss with
  | nil => rfl
  | cons s ss ih => simpa [numberlessItems, numberless] using ih

theorem numberless_ofStrings (ss : List String) : (ofStrings ss).numberless = true := by
  rw [ofStrings, numberless]
  exact numberlessItems_map_str ss

end InPlace.Json

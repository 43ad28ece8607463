/-!
# Blank characters

The characters with the Unicode property `White_Space`, and the three operations on texts that depend
on them: trimming, removing every blank, and splitting into words.

Main statements: `isBlank_of_isWhitespace` (the class contains the one of `Char.isWhitespace`) and
`not_isBlank_of_mem_words` (a word holds no blank).
-/

namespace InPlace.Text

/-- Whether `c` has the property `White_Space`. -/
def isBlank (c : Char) : Bool :=
  let n := c.toNat
  (9 ≤ n && n ≤ 13) || n == 0x20 || n == 0x85 || n == 0xA0 || n == 0x1680
    || (0x2000 ≤ n && n ≤ 0x200A) || n == 0x2028 || n == 0x2029 || n == 0x202F
    || n == 0x205F || n == 0x3000

/-- The blank characters of ASCII without the vertical tab, which is how a class attribute and
rendered text are split in a browser. -/
def isAsciiBlank (c : Char) : Bool :=
  c == ' ' || c == '\t' || c == '\n' || c == '\r' || c == '\x0c'

/-- The spaces of ASCII are among the blanks. -/
theorem isBlank_of_isWhitespace {c : Char} (h : c.isWhitespace = true) : isBlank c = true := by
  simp only [Char.isWhitespace, Bool.or_eq_true, decide_eq_true_eq] at h
  rcases h with ((h | h) | h) | h <;> subst h <;> decide

/-- The text without the characters of `p` at its two ends. -/
def trimWith (p : Char → Bool) (cs : List Char) : List Char :=
  ((cs.dropWhile p).reverse.dropWhile p).reverse

/-- The text without blanks at its two ends. -/
def trim (s : String) : String :=
  String.ofList (trimWith isBlank s.toList)

/-- The text without any blank. -/
def removeBlanks (s : String) : String :=
  String.ofList (s.toList.filter fun c => !isBlank c)

/-- The maximal runs of characters outside `p`, in order. The first argument holds the run that is
being read. -/
def wordsFrom (p : Char → Bool) : List Char → List Char → List (List Char)
  | run, [] => if run.isEmpty then [] else [run.reverse]
  | run, c :: cs =>
    if p c then
      if run.isEmpty then wordsFrom p [] cs else run.reverse :: wordsFrom p [] cs
    else wordsFrom p (c :: run) cs

/-- The words of a text: its maximal runs of characters outside `p`. -/
def wordsWith (p : Char → Bool) (s : String) : List String :=
  (wordsFrom p [] s.toList).map String.ofList

/-- The words of a text, separated by blanks. -/
def words (s : String) : List String :=
  wordsWith isBlank s

/-- No word holds a separator. -/
theorem not_mem_of_mem_wordsFrom {p : Char → Bool} {cs run w : List Char}
    (hrun : ∀ c ∈ run, p c = false) (hw : w ∈ wordsFrom p run cs) : ∀ c ∈ w, p c = false := by
  induction cs generalizing run with
  | nil =>
      unfold wordsFrom at hw
      split at hw
      · cases hw
      · rcases List.mem_singleton.1 hw with rfl
        intro c hc
        exact hrun c (List.mem_reverse.1 hc)
  | cons d cs ih =>
      unfold wordsFrom at hw
      split at hw
      · split at hw
        · exact ih (by intro c hc; cases hc) hw
        · rcases List.mem_cons.1 hw with rfl | hw
          · intro c hc
            exact hrun c (List.mem_reverse.1 hc)
          · exact ih (by intro c hc; cases hc) hw
      · rename_i hd
        refine ih ?_ hw
        intro c hc
        rcases List.mem_cons.1 hc with rfl | hc
        · simpa using hd
        · exact hrun c hc

/-- No word holds a blank. -/
theorem not_isBlank_of_mem_words {s w : String} (hw : w ∈ words s) :
    ∀ c ∈ w.toList, isBlank c = false := by
  obtain ⟨v, hv, rfl⟩ := List.mem_map.1 hw
  intro c hc
  rw [String.toList_ofList] at hc
  exact not_mem_of_mem_wordsFrom (by intro c hc; cases hc) hv c hc

end InPlace.Text

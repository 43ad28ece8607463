/-!
# Glob patterns

Patterns for paths: `?` stands for a character, `*` for any characters, `**` as a whole component for any
directories, and a class in brackets for a character inside or, after `!`, outside of it. A class holds
characters and ranges of them; a closing bracket stands first in it. Slashes have no special part in `?`,
`*` and classes.

Main statement: `accepts_below` (a text with `/**` behind it is a pattern for all that is below).
-/

namespace InPlace.Text

/-- A part of a pattern. -/
inductive GlobToken where
  | literal (c : Char)
  | anyChar
  | anySequence
  /-- Any number of whole components. -/
  | anyDirectories
  /-- A character in one of the ranges. -/
  | within (ranges : List (Char × Char))
  | except (ranges : List (Char × Char))
  deriving DecidableEq, Repr, Inhabited

/-- A pattern that has been read. -/
structure Glob where
  tokens : List GlobToken
  deriving DecidableEq, Repr, Inhabited

/-- Why a text is no pattern. -/
inductive GlobFault where
  | manyStars
  | directoriesInComponent
  | badClass
  deriving DecidableEq, Repr

/-- What is wrong with a pattern and at which character. -/
structure GlobError where
  position : Nat
  fault : GlobFault
  deriving DecidableEq, Repr

/-- What is wrong with a pattern. -/
def GlobFault.message : GlobFault → String
  | manyStars => "wildcards are either regular \x60*\x60 or recursive \x60**\x60"
  | directoriesInComponent => "recursive wildcards must form a single path component"
  | badClass => "invalid range pattern"

/-- What is wrong with a pattern, and where. -/
def GlobError.message (e : GlobError) : String :=
  "Pattern syntax error near position " ++ toString e.position ++ ": " ++ e.fault.message

namespace Glob

/-! ## Reading -/

/-- The characters and ranges of a class. -/
def ranges : List Char → List (Char × Char)
  | a :: '-' :: b :: cs => (a, b) :: ranges cs
  | a :: cs => (a, a) :: ranges cs
  | [] => []

/-- A class after its bracket: its contents, of which there is at least one character, and what follows. -/
def readClass? : List Char → Option (List Char × List Char)
  | first :: cs =>
    match cs.dropWhile (· != ']') with
    | _ :: rest => some (first :: cs.takeWhile (· != ']'), rest)
    | [] => none
  | [] => none

/-- What follows a class is shorter. -/
theorem length_readClass? {cs inside rest : List Char} (h : readClass? cs = some (inside, rest)) :
    rest.length < cs.length := by
  unfold readClass? at h
  split at h
  · rename_i first cs
    split at h
    · rename_i c r hdrop
      have hle := (List.dropWhile_sublist (l := cs) (· != ']')).length_le
      rw [hdrop] at hle
      simp only [Option.some.injEq, Prod.mk.injEq] at h
      rw [← h.2]
      simp only [List.length_cons] at hle ⊢
      omega
    · simp at h
  · simp at h

/-- The token of a class after its bracket, and what follows. -/
def classToken? : List Char → Option (GlobToken × List Char)
  | '!' :: cs => (readClass? cs).map fun (inside, rest) => (.except (ranges inside), rest)
  | cs => (readClass? cs).map fun (inside, rest) => (.within (ranges inside), rest)

/-- What follows the token of a class is shorter. -/
theorem length_classToken? {cs rest : List Char} {t : GlobToken} (h : classToken? cs = some (t, rest)) :
    rest.length < cs.length := by
  unfold classToken? at h
  split at h
  · obtain ⟨⟨inside, r⟩, hread, hpair⟩ := Option.map_eq_some_iff.1 h
    simp only [Prod.mk.injEq] at hpair
    have := length_readClass? hread
    rw [← hpair.2]
    simp only [List.length_cons]
    omega
  · obtain ⟨⟨inside, r⟩, hread, hpair⟩ := Option.map_eq_some_iff.1 h
    simp only [Prod.mk.injEq] at hpair
    rw [← hpair.2]
    exact length_readClass? hread

/-- The tokens of a pattern from position `at` on. The character before is `last`, if there is one. -/
def readFrom (pos : Nat) (last : Option Char) (cs : List Char) : Except GlobError (List GlobToken) :=
  match cs with
  | [] => .ok []
  | '?' :: rest => (readFrom (pos + 1) (some '?') rest).map (.anyChar :: ·)
  | '*' :: '*' :: '*' :: _ => .error ⟨pos + 2, .manyStars⟩
  | '*' :: '*' :: rest =>
    if last.all (· == '/') then
      match rest with
      | [] => .ok [.anyDirectories]
      | '/' :: rest => (readFrom (pos + 3) (some '/') rest).map (.anyDirectories :: ·)
      | _ => .error ⟨pos + 2, .directoriesInComponent⟩
    else .error ⟨pos - 1, .directoriesInComponent⟩
  | '*' :: rest => (readFrom (pos + 1) (some '*') rest).map (.anySequence :: ·)
  | '[' :: inside =>
    match h : classToken? inside with
    | none => .error ⟨pos, .badClass⟩
    | some (t, rest) =>
      have := length_classToken? h
      (readFrom (pos + 1 + (inside.length - rest.length)) (some ']') rest).map (t :: ·)
  | c :: rest => (readFrom (pos + 1) (some c) rest).map (.literal c :: ·)
  termination_by cs.length

/-- Reads a pattern. -/
def parse (s : String) : Except GlobError Glob :=
  (readFrom 0 none s.toList).map Glob.mk

/-! ## Matching -/

/-- What comes of matching: a match, a character that does not fit, or the end of the text where the
pattern asks for more, so that no later beginning can match either. -/
inductive Verdict where
  | matched
  | mismatch
  | exhausted
  deriving DecidableEq, Repr

/-- Whether a character is in one of the ranges. -/
def inRanges (rs : List (Char × Char)) (c : Char) : Bool :=
  rs.any fun (a, b) => a ≤ c && c ≤ b

/-- Whether a character fits a token that stands for one character. -/
def fits (c : Char) : GlobToken → Bool
  | .literal d => c == d
  | .anyChar => true
  | .within rs => inRanges rs c
  | .except rs => !inRanges rs c
  | .anySequence | .anyDirectories => false

/-- Tries the rest of a pattern at each place of a text in turn, with `whole` only at the beginnings of
components. The first argument says whether the rest is tried at once. -/
def skipping (whole : Bool) (rest : List Char → Verdict) : Bool → List Char → Verdict
  | _, [] => rest []
  | now, c :: cs =>
    -- at the end of the text there is no later beginning either
    match if now then rest (c :: cs) else .mismatch with
    | .mismatch => skipping whole rest (!whole || c == '/') cs
    | verdict => verdict

/-- Matches a text with tokens. -/
def matchTokens : List GlobToken → List Char → Verdict
  | [], [] => .matched
  | [], _ :: _ => .mismatch
  | .anySequence :: ts, cs => skipping false (matchTokens ts) true cs
  | .anyDirectories :: ts, cs => skipping true (matchTokens ts) true cs
  | _ :: _, [] => .exhausted
  | t :: ts, c :: cs => if fits c t then matchTokens ts cs else .mismatch

/-- Whether a text matches the pattern. -/
def accepts (g : Glob) (s : String) : Bool :=
  matchTokens g.tokens s.toList == .matched

/-! ## All that is below -/

/-- A character that stands for itself in a pattern. -/
def isPlain (c : Char) : Bool :=
  c != '?' && c != '*' && c != '['

/-- A character that stands for itself is one token. -/
theorem readFrom_cons {c : Char} (hc : isPlain c = true) (pos : Nat) (last : Option Char) (cs : List Char) :
    readFrom pos last (c :: cs) = (readFrom (pos + 1) (some c) cs).map (.literal c :: ·) := by
  simp only [isPlain, Bool.and_eq_true, bne_iff_ne, ne_eq] at hc
  obtain ⟨⟨question, star⟩, bracket⟩ := hc
  rw [readFrom] <;> simp_all

/-- Characters that stand for themselves are read one by one. -/
theorem readFrom_below {ps : List Char} (plain : ∀ c ∈ ps, isPlain c = true) (pos : Nat) (last : Option Char) :
    readFrom pos last (ps ++ ['/', '*', '*']) = .ok (ps.map .literal ++ [.literal '/', .anyDirectories]) := by
  induction ps generalizing pos last with
  | nil =>
    rw [List.nil_append, readFrom_cons rfl, readFrom]
    rfl
  | cons p ps ih =>
    rw [List.cons_append, readFrom_cons (plain p List.mem_cons_self),
      ih fun c hc => plain c (List.mem_cons_of_mem _ hc)]
    rfl

/-- Characters that stand for themselves are matched one by one. -/
theorem matchTokens_literals (ps : List Char) (ts : List GlobToken) (cs : List Char) :
    matchTokens (ps.map .literal ++ ts) (ps ++ cs) = matchTokens ts cs := by
  induction ps with
  | nil => rfl
  | cons p ps ih => simp [matchTokens, fits, ih]

/-- Whatever is left of a text is any directories. -/
theorem skipping_matched (cs : List Char) (now : Bool) : skipping true (matchTokens []) now cs = .matched := by
  induction cs generalizing now with
  | nil => simp [skipping, matchTokens]
  | cons c cs ih => cases now <;> simp [skipping, matchTokens, ih]

/-- A name with `/**` behind it is a pattern. -/
theorem parse_below {name : String} (plain : ∀ c ∈ name.toList, isPlain c = true) :
    parse (name ++ "/**") = .ok ⟨name.toList.map .literal ++ [.literal '/', .anyDirectories]⟩ := by
  rw [parse, String.toList_append]
  exact congrArg (Except.map Glob.mk) (readFrom_below plain 0 none)

/-- A name with `/**` behind it is a pattern that accepts all that is below. -/
theorem accepts_below {name : String} {g : Glob} (plain : ∀ c ∈ name.toList, isPlain c = true)
    (h : parse (name ++ "/**") = .ok g) (rest : String) : g.accepts (name ++ "/" ++ rest) = true := by
  have tokens := (parse_below plain).symm.trans h
  cases tokens
  have whole : (name ++ "/" ++ rest).toList = name.toList ++ '/' :: rest.toList := by
    simp [String.toList_append]
  rw [accepts, whole, matchTokens_literals]
  simp [matchTokens, fits, skipping_matched]

end Glob

end InPlace.Text

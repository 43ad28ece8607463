import InPlace.Json.Printer
import InPlace.Tagging.EditList

/-!
# Source maps

A source map takes places of an edited text back to the source. There is a mapping at the beginning, at
the start of every line of the source, and behind every insertion; the beginning of an insertion is
mapped to no place. Between two mappings columns run in step.

Lines and columns are counted in 32 bits, and counting goes on from zero behind the last number.

`SourceMap.text` writes a map of version 3: each mapping as differences to the one before it, in digits
of base 64.
-/

namespace InPlace.Tagging

open Text (Position)

/-- A place as a map counts it. -/
structure Spot where
  line : UInt32
  column : UInt32
  deriving DecidableEq, Repr, Inhabited

namespace Spot

/-- The spot behind a character at `p`. -/
def advance (p : Spot) (c : Char) : Spot :=
  if c = '\n' then ⟨p.line + 1, 0⟩ else ⟨p.line, p.column + .ofNat (Text.units c)⟩

/-- The spot behind a text at `p`. -/
def after (p : Spot) (cs : List Char) : Spot :=
  cs.foldl advance p

/-- The place with the same numbers. -/
def position (p : Spot) : Position :=
  ⟨p.line.toNat, p.column.toNat⟩

end Spot

/-- Where a place of the edited text comes from, if it was in the source. -/
structure Mapping where
  generated : Spot
  source : Option Spot
  deriving DecidableEq, Repr, Inhabited

/-- The mappings of one edited file. -/
structure SourceMap where
  file : String
  source : String
  mappings : List Mapping
  deriving DecidableEq, Repr

namespace SourceMap

/-- The mappings at the line starts of a piece of the source that is copied to `generated`, and the
places behind it. -/
def copy (generated source : Spot) : List Char → List Mapping × Spot × Spot
  | [] => ([], generated, source)
  | c :: cs =>
    let g := generated.advance c
    let s := source.advance c
    let (ms, ends) := copy g s cs
    if c = '\n' then (⟨g, some s⟩ :: ms, ends) else (ms, ends)

/-- The mappings of what is left of the source from `done` bytes on, with sorted insertions. -/
def mappingsFrom (done : Nat) (generated source : Spot) (rest : List Char) :
    List Insertion → List Mapping
  | [] => (copy generated source rest).1
  | i :: is =>
    match Text.splitAtByte? (i.offset - done) rest with
    | some (before, after) =>
      let (ms, g, s) := copy generated source before
      let g' := g.after i.text.toList
      -- what was inserted comes from nowhere; what follows it goes on in the source
      ms ++ ⟨g, none⟩ :: ⟨g', some s⟩ :: mappingsFrom i.offset g' s after is
    | none => mappingsFrom done generated source rest is

/-- The map of a text to which the insertions of `es` were made. -/
def ofEdits (file source : String) (es : EditList) : SourceMap :=
  ⟨file, source,
    ⟨⟨0, 0⟩, some ⟨0, 0⟩⟩ :: mappingsFrom 0 ⟨0, 0⟩ ⟨0, 0⟩ source.toList es.sorted⟩

/-! ## Text of a map -/

/-- The digits of base 64, in the order of their values. -/
def base64Digits : List Char :=
  "ABCDEFGHIJKLMNOPQRSTUVWXYZabcdefghijklmnopqrstuvwxyz0123456789+/".toList

/-- Groups of five bits, lowest first, each marked if another one follows. -/
def groups (n : Nat) : List Char :=
  if n < 32 then [base64Digits.getD n 'A']
  else base64Digits.getD (n % 32 + 32) 'A' :: groups (n / 32)

/-- A number with its sign in the lowest bit. -/
def signedGroups (n : Int) : List Char :=
  groups (if n < 0 then 2 * n.natAbs + 1 else 2 * n.natAbs)

/-- A number as its difference to an earlier one. -/
def difference (now before : UInt32) : List Char :=
  signedGroups ((now.toNat : Int) - before.toNat)

/-- A mapping as differences to the column and the source place before it. All mappings have the same
source file, so its difference is zero. -/
def segment (column : UInt32) (source : Spot) (m : Mapping) : List Char :=
  difference m.generated.column column ++
    match m.source with
    | none => []
    | some s => signedGroups 0 ++ difference s.line source.line ++ difference s.column source.column

/-- The text of the mappings after `last`. A mapping that repeats the one before it is left out. -/
def segments (last : Option Mapping) (line column : UInt32) (source : Spot) :
    List Mapping → List Char
  | [] => []
  | m :: ms =>
    let source' := m.source.getD source
    if m.generated.line ≠ line then
      List.replicate (m.generated.line.toNat - line.toNat) ';' ++ segment 0 source m
        ++ segments (some m) m.generated.line m.generated.column source' ms
    -- nothing is said twice
    else if last = some m then segments last line column source ms
    else
      (if last.isSome then [','] else []) ++ segment column source m
        ++ segments (some m) line m.generated.column source' ms

/-- The mappings as a text, in the order in which they were made. -/
def mappingsText (m : SourceMap) : String :=
  String.ofList (segments none 0 0 ⟨0, 0⟩ m.mappings)

/-- The map as a JSON text. -/
def text (m : SourceMap) : String :=
  (Json.obj [("version", .int 3), ("file", .str m.file), ("sources", .arr [.str m.file]),
    ("sourcesContent", .arr [.str m.source]), ("names", .arr []),
    ("mappings", .str m.mappingsText)]).compact

end SourceMap

end InPlace.Tagging

import InPlace.Tagging.SourceMap
import InPlace.Proofs.Text.Places
import Mathlib

/-!
# The numbers of a source map

A source map counts lines and columns in 32 bits. Here the same map is made with places that are counted without
an end (`linksFrom`). Each mapping of the program is its link with both places cut to 32 bits (`mappingsFrom_eq`),
because cutting a place to 32 bits goes together with counting on from it. Where the places of a link have their
numbers in 32 bits, nothing is lost (`Link.link_mapping`).

Main statements: `mappingsFrom_eq`, `Link.link_mapping` and `Text.numbered_of_unitLength_lt`.
-/

namespace InPlace

namespace Text

/-- A line and a column that have 32 bits. -/
def Position.Numbered (p : Position) : Prop :=
  p.line < 2 ^ 32 ∧ p.column < 2 ^ 32

/-- Every place of a text, its end included, has a line and a column of 32 bits. -/
def Numbered (cs : List Char) : Prop :=
  ∀ before after, cs = before ++ after → (Position.after ⟨0, 0⟩ before).Numbered

/-- A text of fewer than `2 ^ 32` units has no larger line or column. -/
theorem numbered_of_unitLength_lt {cs : List Char} (h : unitLength cs < 2 ^ 32) : Numbered cs := by
  intro before after whole
  have bound := after_le_unitLength ⟨0, 0⟩ before
  rw [whole, unitLength_append] at h
  dsimp only at bound
  constructor
  · omega
  · omega

end Text

namespace Tagging

open Text (Position)

namespace Spot

/-- The spot of a place: its numbers in 32 bits. -/
def ofPosition (p : Position) : Spot :=
  ⟨.ofNat p.line, .ofNat p.column⟩

variable (p : Position) (c : Char) (cs : List Char)

theorem advance_ofPosition : (ofPosition p).advance c = ofPosition (p.advance c) := by
  unfold advance Position.advance
  split
  · simp only [ofPosition, UInt32.ofNat_add]
    rfl
  · simp only [ofPosition, UInt32.ofNat_add]

/-- Numbers of 32 bits go on as the exact ones do. -/
theorem after_ofPosition : (ofPosition p).after cs = ofPosition (p.after cs) := by
  induction cs generalizing p with
  | nil => rfl
  | cons c cs ih =>
    show ((ofPosition p).advance c).after cs = ofPosition ((p.advance c).after cs)
    rw [advance_ofPosition]
    exact ih (p.advance c)

/-- A place is read back from its spot as long as it has 32 bits. -/
theorem position_ofPosition {p : Position} (h : p.Numbered) : (ofPosition p).position = p := by
  have line : (UInt32.ofNat p.line).toNat = p.line := UInt32.toNat_ofNat_of_lt' h.1
  have column : (UInt32.ofNat p.column).toNat = p.column := UInt32.toNat_ofNat_of_lt' h.2
  rw [ofPosition, position, line, column]

end Spot

/-- A mapping between places that are counted without an end. -/
structure Link where
  generated : Position
  source : Option Position
  deriving DecidableEq, Repr, Inhabited

/-- What a mapping says, in plain numbers. -/
def Mapping.link (m : Mapping) : Link :=
  ⟨m.generated.position, m.source.map Spot.position⟩

/-- What the mappings of a map say, in their order. -/
def SourceMap.links (map : SourceMap) : List Link :=
  map.mappings.map Mapping.link

namespace Link

/-- The mapping that the program keeps of a link. -/
def mapping (l : Link) : Mapping :=
  ⟨.ofPosition l.generated, l.source.map .ofPosition⟩

/-- The places of the link have lines and columns of 32 bits. -/
structure Numbered (l : Link) : Prop where
  generated : l.generated.Numbered
  source : ∀ s, l.source = some s → s.Numbered

/-- The mapping of a link says what the link says. -/
theorem link_mapping {l : Link} (h : l.Numbered) : l.mapping.link = l := by
  obtain ⟨g, s⟩ := l
  have generated : (Spot.ofPosition g).position = g := Spot.position_ofPosition h.generated
  rw [mapping, Mapping.link, generated]
  cases s with
  | none => rfl
  | some s =>
    have source : (Spot.ofPosition s).position = s := Spot.position_ofPosition (h.source s rfl)
    rw [Option.map_some, Option.map_some, source]

end Link

/-! ## The map in plain numbers -/

/-- The links at the line starts of a piece of the source, and the places behind it. -/
def copyLinks (generated source : Position) : List Char → List Link × Position × Position
  | [] => ([], generated, source)
  | c :: cs =>
    let g := generated.advance c
    let s := source.advance c
    let (ls, ends) := copyLinks g s cs
    if c = '\n' then (⟨g, some s⟩ :: ls, ends) else (ls, ends)

/-- The links of what is left of the source from `done` bytes on, with sorted insertions. -/
def linksFrom (done : Nat) (generated source : Position) (rest : List Char) : List Insertion → List Link
  | [] => (copyLinks generated source rest).1
  | i :: is =>
    match Text.splitAtByte? (i.offset - done) rest with
    | some (before, after) =>
      let (ls, g, s) := copyLinks generated source before
      let g' := g.after i.text.toList
      ls ++ ⟨g, none⟩ :: ⟨g', some s⟩ :: linksFrom i.offset g' s after is
    | none => linksFrom done generated source rest is

section

open SourceMap (copy mappingsFrom)

/-- A piece of the source is copied with the same links, and ends at the spots of the same places. -/
theorem copy_eq (g s : Position) (cs : List Char) : copy (.ofPosition g) (.ofPosition s) cs =
    ((copyLinks g s cs).1.map Link.mapping, .ofPosition (copyLinks g s cs).2.1,
      .ofPosition (copyLinks g s cs).2.2) := by
  induction cs generalizing g s with
  | nil => rfl
  | cons c cs ih =>
    rw [copy, Spot.advance_ofPosition, Spot.advance_ofPosition, ih, copyLinks]
    rcases copyLinks (g.advance c) (s.advance c) cs with ⟨ls, ends⟩
    by_cases hc : c = '\n'
    · simp only [if_pos hc, List.map_cons, Link.mapping, Option.map_some]
    · simp only [if_neg hc]

/-- Each mapping is the one of its link. -/
theorem mappingsFrom_eq (place : Nat) (g s : Position) (cs : List Char) (is : List Insertion) :
    mappingsFrom place (.ofPosition g) (.ofPosition s) cs is =
      (linksFrom place g s cs is).map Link.mapping := by
  induction is generalizing place g s cs with
  | nil =>
    rw [mappingsFrom, linksFrom, copy_eq]
  | cons i is ih =>
    rw [mappingsFrom, linksFrom]
    cases Text.splitAtByte? (i.offset - place) cs with
    | none => exact ih place g s cs
    | some parts =>
      obtain ⟨before, after⟩ := parts
      dsimp only
      rw [copy_eq]
      dsimp only
      rw [Spot.after_ofPosition, ih, List.map_append, List.map_cons, List.map_cons]
      rfl

/-- The links of an edited text, if all of them have their numbers in 32 bits. -/
theorem links_ofEdits (file source : String) (es : EditList)
    (h : ∀ l ∈ linksFrom 0 ⟨0, 0⟩ ⟨0, 0⟩ source.toList es.sorted, l.Numbered) :
    (SourceMap.ofEdits file source es).links =
      ⟨⟨0, 0⟩, some ⟨0, 0⟩⟩ :: linksFrom 0 ⟨0, 0⟩ ⟨0, 0⟩ source.toList es.sorted := by
  have whole : (SourceMap.ofEdits file source es).mappings = (⟨⟨0, 0⟩, some ⟨0, 0⟩⟩ : Mapping) ::
      (linksFrom 0 ⟨0, 0⟩ ⟨0, 0⟩ source.toList es.sorted).map Link.mapping :=
    congrArg _ (mappingsFrom_eq 0 ⟨0, 0⟩ ⟨0, 0⟩ source.toList es.sorted)
  rw [SourceMap.links, whole, List.map_cons, List.map_map]
  refine congrArg _ ?_
  conv_rhs => rw [← List.map_id (linksFrom 0 ⟨0, 0⟩ ⟨0, 0⟩ source.toList es.sorted)]
  exact List.map_congr_left fun l hl => Link.link_mapping (h l hl)

end

end Tagging

end InPlace

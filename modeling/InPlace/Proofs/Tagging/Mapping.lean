import InPlace.Proofs.Tagging.Additions
import InPlace.Proofs.Tagging.Links

/-!
# Source maps lead back

A place of an edited text is looked up by the last mapping on its line that is not behind it. What is found for a
character of the source leads to its place in the source, if the columns between the mapping and the character are
counted on from there; what is found for an inserted character leads nowhere.

The proofs go over the source together with its sorted insertions (`Walk`). The mappings made so far lead from the
place reached in the edited text to the place reached in the source (`Synced`), and all later ones are behind it.

All this is about the links of a map, which are in plain numbers. They are what the map says as long as every line
and column of the source and of the edited text has 32 bits (`numbered_links`).

Main statements: `Walk.traced`, `Walk.increasing` and `ofEdits_right`.
-/

namespace InPlace.Tagging

open Text (Position byteLength unitLength)

/-- The last mapping on the line of a place that is not behind it. -/
def lookUp? (ms : List Link) (p : Position) : Option Link :=
  (ms.filter fun m => m.generated.line = p.line ∧ m.generated.column ≤ p.column).getLast?

/-- The mapping found for `p` leads to `s`, with the columns counted on from it. -/
def Leads (ms : List Link) (p s : Position) : Prop :=
  ∃ m s', lookUp? ms p = some m ∧ m.source = some s' ∧ s'.line = s.line ∧
    s'.column + (p.column - m.generated.column) = s.column

/-- What the mappings have to say of a letter at `p`: where it stands in the source, or nothing. -/
def Traced (ms : List Link) (p s : Position) : Letter → Prop
  | .kept _ => Leads ms p s
  | .inserted _ => ∀ m, lookUp? ms p = some m → m.source = none

/-- Insertions at different places, none of them at the beginning of a line. -/
structure EditList.Spread (es : EditList) (source : String) : Prop where
  apart : es.insertions.Pairwise fun a b => a.offset ≠ b.offset
  inside : ∀ i ∈ es.insertions, ∀ p, Text.position? source.toList i.offset = some p → p.column ≠ 0

/-- What is expected of the map of a source to which the insertions of `es` were made. -/
structure SourceMap.Right (map : SourceMap) (es : EditList) (source : String) : Prop where
  /-- The letters are those of the text that is made, and of the source if the inserted ones are left out. -/
  letters : es.apply source = .ok (String.ofList ((es.letters source).map Letter.char)) ∧
    (es.letters source).filterMap Letter.kept? = source.toList
  traced : ∀ before l after, es.letters source = before ++ l :: after →
    Traced map.links (Position.after ⟨0, 0⟩ (before.map Letter.char))
      (Position.after ⟨0, 0⟩ (before.filterMap Letter.kept?)) l
  /-- No number in the map is larger than the units of the text that it is about. -/
  bounded : ∀ m ∈ map.links,
    (m.generated.line ≤ unitLength ((es.letters source).map Letter.char) ∧
      m.generated.column ≤ unitLength ((es.letters source).map Letter.char)) ∧
    ∀ s, m.source = some s → s.line ≤ unitLength source.toList ∧ s.column ≤ unitLength source.toList
  sorted : map.links.Pairwise fun m n => m.generated ≤ n.generated
  increasing : es.Spread source → map.links.Pairwise fun m n => m.generated < n.generated

/-! ## Looking up -/

section

variable {ms later : List Link} {g p s : Position} {m : Link} {c : Char}

/-- Mappings behind a place do not matter to it. -/
theorem lookUp?_append (h : ∀ m ∈ later, p < m.generated) : lookUp? (ms ++ later) p = lookUp? ms p := by
  have none : (later.filter fun m => m.generated.line = p.line ∧ m.generated.column ≤ p.column) = [] := by
    refine List.filter_eq_nil_iff.2 fun m hm => ?_
    have behind := Position.lt_iff.1 (h m hm)
    simp only [decide_eq_true_eq]
    omega
  rw [lookUp?, List.filter_append, none, List.append_nil, lookUp?]

/-- The last mapping is found for the places behind it on its line. -/
theorem lookUp?_snoc (line : m.generated.line = p.line) (column : m.generated.column ≤ p.column) :
    lookUp? (ms ++ [m]) p = some m := by
  have found : [m].filter (fun m => m.generated.line = p.line ∧ m.generated.column ≤ p.column) = [m] := by
    simp [line, column]
  rw [lookUp?, List.filter_append, found, List.getLast?_concat]

/-- On a line without mappings nothing is found. -/
theorem lookUp?_of_line_lt (h : ∀ m ∈ ms, m.generated.line < p.line) : lookUp? ms p = none := by
  have none : (ms.filter fun m => m.generated.line = p.line ∧ m.generated.column ≤ p.column) = [] := by
    refine List.filter_eq_nil_iff.2 fun m hm => ?_
    have above := h m hm
    simp only [decide_eq_true_eq]
    omega
  rw [lookUp?, none, List.getLast?_nil]

/-- The same is found at all places of a line behind its last mapping. -/
theorem lookUp?_eq_of_le (h : ∀ m ∈ ms, m.generated ≤ g) (line : p.line = g.line)
    (column : g.column ≤ p.column) : lookUp? ms p = lookUp? ms g := by
  have same : (ms.filter fun m => m.generated.line = p.line ∧ m.generated.column ≤ p.column) =
      ms.filter fun m => m.generated.line = g.line ∧ m.generated.column ≤ g.column := by
    refine List.filter_congr fun m hm => ?_
    have before := Position.le_iff.1 (h m hm)
    rw [decide_eq_decide, line]
    omega
  rw [lookUp?, same, lookUp?]

theorem le_of_lookUp? (h : lookUp? ms p = some m) : m.generated.column ≤ p.column := by
  have found := List.mem_filter.1 (List.mem_of_getLast? h)
  exact (of_decide_eq_true found.2).2

/-! ## Step by step -/

/-- All mappings made so far are at or before `g`, and lead from there to `s`. -/
structure Synced (ms : List Link) (g s : Position) : Prop where
  le : ∀ m ∈ ms, m.generated ≤ g
  leads : Leads ms g s

/-- The mapping at the beginning of a line that a character has opened. -/
def opened (c : Char) (g s : Position) : List Link :=
  if c = '\n' then [⟨g, some s⟩] else []

theorem eq_of_mem_opened (h : m ∈ opened c g s) : m = ⟨g, some s⟩ := by
  unfold opened at h
  split at h
  · exact List.mem_singleton.1 h
  · exact absurd h List.not_mem_nil

/-- A link that is added is the last one. -/
theorem Synced.start (g s : Position) (h : ∀ m ∈ ms, m.generated ≤ g) : Synced (ms ++ [⟨g, some s⟩]) g s where
  le := by
    intro m hm
    rcases List.mem_append.1 hm with hm | hm
    · exact h m hm
    · rw [List.mem_singleton.1 hm]
  leads := ⟨⟨g, some s⟩, s, lookUp?_snoc rfl (Nat.le_refl _), rfl, rfl, by simp⟩

/-- A character of the source leads on in both texts. -/
theorem Synced.keep (h : Synced ms g s) (c : Char) :
    Synced (ms ++ opened c (g.advance c) (s.advance c)) (g.advance c) (s.advance c) := by
  have further : ∀ m ∈ ms, m.generated ≤ g.advance c := fun m hm =>
    (h.le m hm).trans (Position.lt_advance g c).le
  unfold opened
  split
  · exact .start _ _ further
  · rename_i hc
    rw [List.append_nil]
    refine ⟨further, ?_⟩
    obtain ⟨m, s', found, source, line, column⟩ := h.leads
    have before := le_of_lookUp? found
    have generated : g.advance c = ⟨g.line, g.column + Text.units c⟩ := if_neg hc
    have original : s.advance c = ⟨s.line, s.column + Text.units c⟩ := if_neg hc
    rw [generated, original]
    refine ⟨m, s', ?_, source, line, by dsimp only; omega⟩
    rw [← found]
    exact lookUp?_eq_of_le h.le rfl (Nat.le_add_right _ _)

/-- What was inserted leads on in the edited text only. -/
theorem Synced.insert (h : Synced ms g s) (text : List Char) :
    Synced (ms ++ [⟨g, none⟩, ⟨g.after text, some s⟩]) (g.after text) s := by
  have further : ∀ m ∈ ms ++ [⟨g, none⟩], m.generated ≤ g.after text := by
    intro m hm
    rcases List.mem_append.1 hm with hm | hm
    · exact (h.le m hm).trans (Position.le_after g text)
    · rw [List.mem_singleton.1 hm]
      exact Position.le_after g text
  have step := Synced.start (g.after text) s further
  rw [List.append_assoc] at step
  exact step

/-- Nothing is found for a place behind a mapping to nowhere but what leads nowhere. -/
theorem source_of_lookUp?_snoc (h : ∀ m ∈ ms, m.generated ≤ g) (hp : g ≤ p)
    (found : lookUp? (ms ++ [⟨g, none⟩]) p = some m) : m.source = none := by
  rcases Position.le_iff.1 hp with line | ⟨line, column⟩
  · have above : ∀ m ∈ ms ++ [⟨g, none⟩], m.generated.line < p.line := by
      intro m hm
      rcases List.mem_append.1 hm with hm | hm
      · have before := Position.le_iff.1 (h m hm)
        omega
      · rw [List.mem_singleton.1 hm]
        exact line
    rw [lookUp?_of_line_lt above] at found
    cases found
  · rw [lookUp?_snoc line column] at found
    cases found
    rfl

end

/-! ## The mappings of an edited text -/

namespace EditList

section

variable {place : Nat} {cs before after : List Char} {i : Insertion} {is : List Insertion}
  {es : EditList} {source : String} {g s : Position} {ms : List Link} {m : Link}

theorem copyLinks_cons (g s : Position) (c : Char) (cs : List Char) : copyLinks g s (c :: cs) =
    (opened c (g.advance c) (s.advance c) ++ (copyLinks (g.advance c) (s.advance c) cs).1,
      (copyLinks (g.advance c) (s.advance c) cs).2) := by
  unfold opened
  rw [copyLinks]
  rcases copyLinks (g.advance c) (s.advance c) cs with ⟨ms, ends⟩
  dsimp only
  by_cases hc : c = '\n'
  · rw [if_pos hc, if_pos hc, List.singleton_append]
  · rw [if_neg hc, if_neg hc, List.nil_append]

theorem copyLinks_ends (g s : Position) (cs : List Char) : (copyLinks g s cs).2 = (g.after cs, s.after cs) := by
  induction cs generalizing g s with
  | nil => rfl
  | cons c cs ih =>
    rw [copyLinks_cons]
    exact ih _ _

/-- The mappings of a piece of the source, and of the insertion behind it. -/
theorem linksFrom_piece (hlen : place + byteLength before = i.offset) (g s : Position) (after : List Char)
    (is : List Insertion) : linksFrom place g s (before ++ after) (i :: is) =
      (copyLinks g s before).1 ++ ⟨g.after before, none⟩ ::
        ⟨(g.after before).after i.text.toList, some (s.after before)⟩ ::
        linksFrom i.offset ((g.after before).after i.text.toList) (s.after before) after is := by
  have split : Text.splitAtByte? (i.offset - place) (before ++ after) = some (before, after) :=
    Text.splitAtByte?_eq_some.2 ⟨rfl, by omega⟩
  have ends := copyLinks_ends g s before
  rw [linksFrom, split]
  rcases hcopy : copyLinks g s before with ⟨ms, g', s'⟩
  rw [hcopy] at ends
  cases ends
  dsimp only
  rw [hcopy]

theorem linksFrom_insert (i : Insertion) (g s : Position) (cs : List Char) (is : List Insertion) :
    linksFrom i.offset g s cs (i :: is) = ⟨g, none⟩ :: ⟨g.after i.text.toList, some s⟩ ::
      linksFrom i.offset (g.after i.text.toList) s cs is :=
  linksFrom_piece (show i.offset + byteLength [] = i.offset from rfl) g s cs is

/-- A character in front of the next insertion is linked to itself. -/
theorem linksFrom_keep {c : Char} (h : Walk (place + c.utf8Size) cs is) (g s : Position) :
    linksFrom place g s (c :: cs) is = opened c (g.advance c) (s.advance c) ++
      linksFrom (place + c.utf8Size) (g.advance c) (s.advance c) cs is := by
  cases is with
  | nil => exact congrArg Prod.fst (copyLinks_cons g s c cs)
  | cons i is =>
    obtain ⟨before, after, rfl, hlen⟩ := h.cut
    have longer : place + byteLength (c :: before) = i.offset := by
      rw [byteLength, ← Nat.add_assoc, hlen]
    rw [linksFrom_piece hlen, ← List.cons_append, linksFrom_piece longer, copyLinks_cons,
      List.append_assoc]
    rfl

/-- A mapping belongs to a place of the edited text; if it has a source, that is the place in the source. -/
theorem Walk.place_of_mem (h : Walk place cs is) (hm : m ∈ linksFrom place g s cs is) :
    ∃ before after, lettersFrom is place cs = before ++ after ∧
      m.generated = g.after (before.map Letter.char) ∧
      ∀ s', m.source = some s' → s' = s.after (before.filterMap Letter.kept?) := by
  -- letters of the source count in both texts, letters that are inserted only in the edited one
  induction h generalizing g s with
  | done place => exact absurd hm List.not_mem_nil
  | @keep place c cs is walk ih =>
    rw [lettersFrom_keep walk]
    rw [linksFrom_keep walk, List.mem_append] at hm
    rcases hm with hm | hm
    · rw [eq_of_mem_opened hm]
      exact ⟨[.kept c], _, rfl, rfl, fun s' hs => (Option.some.inj hs).symm⟩
    · obtain ⟨before, after, letters, generated, source⟩ := ih hm
      exact ⟨.kept c :: before, after, congrArg (Letter.kept c :: ·) letters, generated, source⟩
  | @insert i cs is walk ih =>
    rw [lettersFrom_cons]
    rw [linksFrom_insert, List.mem_cons, List.mem_cons] at hm
    rcases hm with rfl | rfl | hm
    · exact ⟨[], _, rfl, rfl, fun s' hs => by cases hs⟩
    · refine ⟨i.text.toList.map .inserted, _, rfl, ?_, fun s' hs => ?_⟩
      · rw [Letter.map_char_inserted]
      · rw [Letter.filterMap_inserted]
        exact (Option.some.inj hs).symm
    · obtain ⟨before, after, letters, generated, source⟩ := ih hm
      refine ⟨i.text.toList.map .inserted ++ before, after, by rw [letters, List.append_assoc], ?_,
        fun s' hs => ?_⟩
      · rw [List.map_append, Letter.map_char_inserted, Position.after_append, generated]
      · rw [List.filterMap_append, Letter.filterMap_inserted, List.nil_append]
        exact source s' hs

theorem Walk.le_of_mem (h : Walk place cs is) (hm : m ∈ linksFrom place g s cs is) :
    g ≤ m.generated := by
  obtain ⟨before, -, -, generated, -⟩ := h.place_of_mem hm
  rw [generated]
  exact Position.le_after g _

/-- Once a character of the source is passed, the mappings are behind it. -/
theorem Walk.advance_le_of_mem {c : Char} (h : Walk (place + c.utf8Size) cs is)
    (hm : m ∈ linksFrom place g s (c :: cs) is) : g.advance c ≤ m.generated := by
  rw [linksFrom_keep h, List.mem_append] at hm
  rcases hm with hm | hm
  · rw [eq_of_mem_opened hm]
  · exact h.le_of_mem hm

/-! ## Letters -/

/-- A member of two lists in a row stands in one of them. -/
theorem append_eq_append_cons {α : Type} {xs ys as bs : List α} {a : α} (h : xs ++ ys = as ++ a :: bs) :
    (∃ cs, xs = as ++ a :: cs) ∨ ∃ cs, as = xs ++ cs ∧ ys = cs ++ a :: bs := by
  rcases List.append_eq_append_iff.1 h with ⟨cs, has, hys⟩ | ⟨cs, hxs, hbs⟩
  · exact .inr ⟨cs, has, hys⟩
  · cases cs with
    | nil => exact .inr ⟨[], by rw [hxs, List.append_nil, List.append_nil], hbs.symm⟩
    | cons c cs =>
      cases hbs
      exact .inl ⟨cs, hxs⟩

/-- The mappings made so far and those to come trace every letter to come. -/
theorem Walk.traced (h : Walk place cs is) (hs : Synced ms g s) {before after : List Letter} {l : Letter}
    (hl : lettersFrom is place cs = before ++ l :: after) :
    Traced (ms ++ linksFrom place g s cs is) (g.after (before.map Letter.char))
      (s.after (before.filterMap Letter.kept?)) l := by
  induction h generalizing ms g s before with
  | done place => exact absurd hl.symm (List.append_ne_nil_of_right_ne_nil _ (List.cons_ne_nil l after))
  | @keep place c cs is walk ih =>
    rw [lettersFrom_keep walk] at hl
    cases before with
    | nil =>
      obtain ⟨rfl, -⟩ := List.cons.inj hl
      obtain ⟨m, s', found, traced⟩ := hs.leads
      refine ⟨m, s', ?_, traced⟩
      rw [← found]
      exact lookUp?_append fun n hn => (Position.lt_advance g c).trans_le (walk.advance_le_of_mem hn)
    | cons k before =>
      obtain ⟨rfl, rest⟩ := List.cons.inj hl
      rw [linksFrom_keep walk, ← List.append_assoc]
      exact ih (hs.keep c) rest
  | @insert i cs is walk ih =>
    rw [lettersFrom_cons] at hl
    rw [linksFrom_insert]
    rcases append_eq_append_cons hl with ⟨more, text⟩ | ⟨behind, rfl, rest⟩
    · -- an inserted letter: the insertion began at a mapping to nowhere and has not come to its end
      obtain ⟨front, back, whole, hfront, hback⟩ := List.map_eq_append_iff.1 text
      obtain ⟨d, tail, rfl, rfl, rfl⟩ := List.map_eq_cons_iff.1 hback
      subst hfront
      rw [Letter.map_char_inserted]
      intro m found
      have unread : ∀ n ∈ (⟨g.after i.text.toList, some s⟩ : Link) ::
          linksFrom i.offset (g.after i.text.toList) s cs is, g.after front < n.generated := by
        have ahead : g.after front < g.after i.text.toList := by
          rw [whole, Position.after_append]
          exact Position.lt_after _ (List.cons_ne_nil d tail)
        exact List.forall_mem_cons.2 ⟨ahead, fun n hn => ahead.trans_le (walk.le_of_mem hn)⟩
      rw [← List.singleton_append, ← List.append_assoc, lookUp?_append unread] at found
      exact source_of_lookUp?_snoc hs.le (Position.le_after g front) found
    · have step := ih (hs.insert i.text.toList) rest
      rw [List.append_assoc] at step
      rw [List.map_append, Letter.map_char_inserted, Position.after_append, List.filterMap_append,
        Letter.filterMap_inserted, List.nil_append]
      exact step

/-! ## The order of the mappings -/

/-- Links come in the order of the text that is made. -/
theorem Walk.sorted (h : Walk place cs is) (g s : Position) :
    (linksFrom place g s cs is).Pairwise fun m n => m.generated ≤ n.generated := by
  induction h generalizing g s with
  | done place => exact .nil
  | @keep place c cs is walk ih =>
    rw [linksFrom_keep walk]
    unfold opened
    split
    · exact .cons (fun n hn => walk.le_of_mem hn) (ih _ _)
    · exact ih _ _
  | @insert i cs is walk ih =>
    rw [linksFrom_insert]
    have later := fun n hn => walk.le_of_mem (g := g.after i.text.toList) (s := s) (m := n) hn
    refine .cons ?_ (.cons later (ih _ _))
    exact List.forall_mem_cons.2 ⟨Position.le_after _ _, fun n hn => (Position.le_after _ _).trans (later n hn)⟩

/-- If nothing is inserted at a place, the next mapping is behind it. -/
theorem Walk.lt_of_mem (h : Walk place cs is) (free : ∀ i ∈ is, i.offset ≠ place)
    (hm : m ∈ linksFrom place g s cs is) : g < m.generated := by
  cases h with
  | done => exact absurd hm List.not_mem_nil
  | @keep _ c cs _ walk => exact (Position.lt_advance g c).trans_le (walk.advance_le_of_mem hm)
  | @insert i cs is walk => exact absurd rfl (free i List.mem_cons_self)

/-- No insertion on the way is at the beginning of a line, if the place reached in the source is `s`. -/
def Inside (place : Nat) (s : Position) (cs : List Char) (is : List Insertion) : Prop :=
  ∀ i ∈ is, ∀ before after, cs = before ++ after → place + byteLength before = i.offset →
    (s.after before).column ≠ 0

/-- The mappings of insertions at different places, none of which is at the beginning of a line, are at different
places. -/
theorem Walk.increasing (h : Walk place cs is) (texts : ∀ i ∈ is, i.text.toList ≠ [])
    (apart : is.Pairwise fun a b => a.offset ≠ b.offset) (inside : Inside place s cs is) (g : Position) :
    (linksFrom place g s cs is).Pairwise fun m n => m.generated < n.generated := by
  induction h generalizing g s with
  | done place => exact .nil
  | @keep place c cs is walk ih =>
    have further : Inside (place + c.utf8Size) (s.advance c) cs is := by
      rintro i hi before after rfl hlen
      exact inside i hi (c :: before) after rfl (by rw [byteLength, ← Nat.add_assoc, hlen])
    rw [linksFrom_keep walk]
    unfold opened
    split
    · rename_i hc
      refine .cons (fun n hn => walk.lt_of_mem (fun i hi heq => ?_) hn) (ih texts apart further _)
      refine further i hi [] cs rfl heq.symm ?_
      rw [hc]
      rfl
    · exact ih texts apart further _
  | @insert i cs is walk ih =>
    obtain ⟨text, texts⟩ := List.forall_mem_cons.1 texts
    obtain ⟨different, apart⟩ := List.pairwise_cons.1 apart
    have rest : Inside i.offset s cs is := fun j hj => inside j (List.mem_cons_of_mem i hj)
    have later := fun n hn => walk.lt_of_mem (g := g.after i.text.toList) (s := s) (m := n)
      (fun j hj => (different j hj).symm) hn
    have longer := Position.lt_after g text
    rw [linksFrom_insert]
    exact .cons (List.forall_mem_cons.2 ⟨longer, fun n hn => longer.trans (later n hn)⟩)
      (.cons later (ih texts apart rest _))

/-! ## Whole maps -/

/-- Within a text no line or column is larger than its length. -/
theorem bounded_of_append {cs ds : List Char} (hds : ds = before ++ cs) :
    (Position.after ⟨0, 0⟩ before).line ≤ unitLength ds ∧
      (Position.after ⟨0, 0⟩ before).column ≤ unitLength ds := by
  have bound := Text.after_le_unitLength ⟨0, 0⟩ before
  rw [hds, Text.unitLength_append]
  dsimp only at bound
  omega

theorem inside_sorted (h : es.Spread source) : Inside 0 ⟨0, 0⟩ source.toList es.sorted := by
  rintro i hi before after whole hlen
  exact h.inside i (mem_sorted.1 hi) _ (Text.position?_of_append whole ((Nat.zero_add _).symm.trans hlen))

/-- The links of an edited text have no larger numbers than the source and the text that is made. -/
theorem numbered_links (valid : es.badOffset? source = none) (original : Text.Numbered source.toList)
    (edited : Text.Numbered ((es.letters source).map Letter.char)) :
    ∀ l ∈ linksFrom 0 ⟨0, 0⟩ ⟨0, 0⟩ source.toList es.sorted, l.Numbered := by
  intro l hl
  obtain ⟨before, after, letters, generated, place⟩ := (cuts_sorted valid).walk.place_of_mem hl
  have whole : es.letters source = before ++ after := (lettersFrom_sorted es 0 _).symm.trans letters
  constructor
  · rw [generated]
    exact edited (before.map Letter.char) (after.map Letter.char) (by rw [whole, List.map_append])
  · intro s hs
    rw [place s hs]
    refine original (before.filterMap Letter.kept?) (after.filterMap Letter.kept?) ?_
    rw [← kept_letters es source, whole, List.filterMap_append]

/-- The map of a list of edits is right, if lines and columns have 32 bits. -/
theorem right_ofEdits (file : String) (valid : es.badOffset? source = none)
    (texts : ∀ i ∈ es.insertions, i.text ≠ "") (original : Text.Numbered source.toList)
    (edited : Text.Numbered ((es.letters source).map Letter.char)) :
    (SourceMap.ofEdits file source es).Right es source := by
  have walk := (cuts_sorted valid).walk
  have letters : lettersFrom es.sorted 0 source.toList = es.letters source := lettersFrom_sorted es 0 _
  have kept := kept_letters es source
  have links := links_ofEdits file source es (numbered_links valid original edited)
  refine ⟨⟨apply_eq_ok valid, kept⟩, fun before l after hl => ?_, fun m hm => ?_, ?_, fun spread => ?_⟩
  · have start : Synced [⟨⟨0, 0⟩, some ⟨0, 0⟩⟩] ⟨0, 0⟩ ⟨0, 0⟩ :=
      Synced.start ⟨0, 0⟩ ⟨0, 0⟩ (List.forall_mem_nil _)
    rw [links]
    exact walk.traced start (letters.trans hl)
  · rw [links] at hm
    rcases List.mem_cons.1 hm with rfl | hm
    · refine ⟨⟨Nat.zero_le _, Nat.zero_le _⟩, fun s hs => ?_⟩
      cases hs
      exact ⟨Nat.zero_le _, Nat.zero_le _⟩
    · obtain ⟨before, after, hl, generated, original⟩ := walk.place_of_mem hm
      rw [letters] at hl
      refine ⟨?_, fun s hs => ?_⟩
      · rw [generated]
        exact bounded_of_append (by rw [hl, List.map_append])
      · rw [original s hs]
        exact bounded_of_append (by rw [← kept, hl, List.filterMap_append])
  · rw [links]
    exact .cons (fun m hm => walk.le_of_mem hm) (walk.sorted _ _)
  · have inside := inside_sorted spread
    have apart : es.sorted.Pairwise fun a b => a.offset ≠ b.offset :=
      ((List.mergeSort_perm es.insertions _).pairwise_iff fun h => h.symm).2 spread.apart
    have filled : ∀ i ∈ es.sorted, i.text.toList ≠ [] := fun i hi hnil =>
      texts i (mem_sorted.1 hi) (String.toList_eq_nil_iff.1 hnil)
    rw [links]
    refine .cons (fun m hm => walk.lt_of_mem (fun i hi heq => ?_) hm) (walk.increasing filled apart inside _)
    exact inside i hi [] _ rfl heq.symm rfl

end

end EditList

/-! ## The insertions of the tagger -/

open Tsx (Node)

/-- Where the head of a tag ends: its name, and the type arguments that follow it. -/
def headEnd? (n : Node) : Option Nat :=
  (n.childWith .name).map fun nameNode => ((typeArguments? n).getD nameNode).span.stop

/-- Tags begin at different places, no head of a tag ends with a line feed, and a tag that begins in the head of
another one (as in its type arguments) ends its own head in front of the end of that one. -/
structure Headed (source : List Char) (tree : Node) : Prop where
  apart : (tags tree).Pairwise fun m n => m.span.start ≠ n.span.start
  written : ∀ n ∈ tags tree, ∀ stop ∈ headEnd? n, ∃ text ∈ Text.slice? source n.span.start stop,
    text ≠ [] ∧ text.getLast? ≠ some '\n'
  nested : ∀ m ∈ tags tree, ∀ n ∈ tags tree, m.span.start < n.span.start → ∀ stop ∈ headEnd? m,
    stop ≤ n.span.start ∨ ∀ inner ∈ headEnd? n, inner < stop

instance (source : List Char) (tree : Node) : Decidable (Headed source tree) :=
  decidable_of_iff
    (((tags tree).Pairwise fun m n => m.span.start ≠ n.span.start) ∧
      (∀ n ∈ tags tree, ∀ stop ∈ headEnd? n, ∃ text ∈ Text.slice? source n.span.start stop,
        text ≠ [] ∧ text.getLast? ≠ some '\n') ∧
      ∀ m ∈ tags tree, ∀ n ∈ tags tree, m.span.start < n.span.start → ∀ stop ∈ headEnd? m,
        stop ≤ n.span.start ∨ ∀ inner ∈ headEnd? n, inner < stop)
    ⟨fun ⟨apart, written, nested⟩ => ⟨apart, written, nested⟩, fun h => ⟨h.apart, h.written, h.nested⟩⟩

section

variable {o : Options} {source path : String} {tree n : Node} {i : Insertion}

theorem headEnd?_of_insertion? {cs : List Char} (h : insertion? o cs path n = some i) :
    headEnd? n = some i.offset := by
  obtain ⟨nameNode, name, identity, named, -, -, -, -, rfl⟩ := insertion?_eq_some_iff.1 h
  rw [headEnd?, named, Option.map_some]

/-- A head ends behind its beginning, and not at the beginning of a line. -/
theorem Headed.lt_stop (h : Headed source.toList tree) (hn : n ∈ tags tree) {stop : Nat}
    (hstop : headEnd? n = some stop) : n.span.start < stop ∧
      ∀ p, Text.position? source.toList stop = some p → p.column ≠ 0 := by
  obtain ⟨text, written, filled, last⟩ := h.written n hn stop hstop
  obtain ⟨before, after, whole, start, stop⟩ := Text.slice?_eq_some.1 written
  obtain ⟨init, c, rfl⟩ := List.eq_nil_or_concat' text |>.resolve_left filled
  -- the head ends behind a character that ends no line, so its end is not at the beginning of one
  have hc : c ≠ '\n' := by
    rintro rfl
    exact last List.getLast?_concat
  have positive := c.utf8Size_pos
  refine ⟨?_, fun p hp => ?_⟩
  · rw [← start, ← stop, Text.byteLength_append, Text.byteLength_append]
    simp only [byteLength]
    omega
  · rw [Text.position?_of_append whole stop, ← List.append_assoc, Position.after_append] at hp
    have units := Text.units_pos c
    rw [← Option.some.inj hp, Position.after_cons, Position.advance, if_neg hc]
    show _ + Text.units c ≠ 0
    omega

/-- The heads of two tags end at different places. -/
theorem Headed.stop_ne {m : Node} (h : Headed source.toList tree) (hm : m ∈ tags tree) (hn : n ∈ tags tree)
    (order : m.span.start < n.span.start) {stop inner : Nat} (hstop : headEnd? m = some stop)
    (hinner : headEnd? n = some inner) : stop ≠ inner := by
  rcases h.nested m hm n hn order stop hstop with before | inside
  · -- the head of the earlier tag ends in front of the later tag
    exact (before.trans_lt (h.lt_stop hn hinner).1).ne
  · exact (inside inner hinner).ne'

/-- The insertions of the tagger are at different places, and none of them is at the beginning of a line. -/
theorem spread_editsOf (h : Headed source.toList tree) (o : Options) (path : String) :
    (editsOf o source path tree).1.Spread source where
  apart := by
    rw [insertions_editsOf, List.pairwise_filterMap]
    refine h.apart.imp_of_mem fun {m n} hm hn different i hi j hj => ?_
    have hi := headEnd?_of_insertion? hi
    have hj := headEnd?_of_insertion? hj
    rcases Nat.lt_or_gt_of_ne different with order | order
    · exact h.stop_ne hm hn order hi hj
    · exact (h.stop_ne hn hm order hj hi).symm
  inside := by
    intro i hi
    rw [insertions_editsOf] at hi
    obtain ⟨n, hn, hi⟩ := List.mem_filterMap.1 hi
    exact (h.lt_stop hn (headEnd?_of_insertion? hi)).2

end

end InPlace.Tagging

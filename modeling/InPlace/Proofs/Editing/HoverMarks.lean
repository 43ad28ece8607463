import InPlace.Proofs.Editing.Hovering
import Mathlib.Data.List.Induction

/-!
# Marks of hovered elements

An element is marked while it is hovered, and loses the marks when the hover ends. There is one way to keep them. If the
page takes a hovered element out of the document, and the editor hears that the page has changed, it forgets the element
but leaves it marked. Then the element is marked, in the document or not, until it is hovered again (`Stranded`).

Main statements: `hoverMarked_step` and `hoverMarks_run`.
-/

namespace InPlace.Editor

open Headless (Document Part PageEdit)

variable {q : NodeId → Prop} {e e' : HeadlessEditor} {n : NodeId} {x : Step} {xs ys : List Step}

instance (e : HeadlessEditor) (n : NodeId) : Decidable (e.HoverMarked n) :=
  inferInstanceAs (Decidable (_ ∨ _))

/-- The editor hears that the page has changed while this node is hovered and out of the document. -/
def Forgets (n : NodeId) (e : HeadlessEditor) (x : Step) : Prop :=
  x = .operate .contentChanged ∧ e.state.hover = some n ∧ e.page.document.isConnected n = false

/-- A node was forgotten while it was hovered, and has not been hovered since. -/
def Stranded (e : HeadlessEditor) (xs : List Step) (n : NodeId) : Prop :=
  e.Since (Forgets n) (fun e => e.state.hover ≠ some n) xs

/-- The parts of a document that the marks of a hovered element are in. -/
abbrev hoverParts : List Part :=
  [.attr Overlay.hoveredAttribute, .attr Overlay.fullWidthAttribute]

/-! ## Steps -/

/-- What leaves the hover and the marks alone leaves a node marked exactly if it is still hovered, or was marked without
being hovered. -/
theorem hoverMarked_iff_of_kept (hover : e'.state.hover = e.state.hover)
    (kept : e'.HoverMarked n ↔ e.HoverMarked n) (h : e.state.hover = some n → e.HoverMarked n) :
    e'.HoverMarked n ↔ e'.state.hover = some n ∨ (e.HoverMarked n ∧ e.state.hover ≠ some n) := by
  rw [kept, hover]
  constructor
  · intro marked
    by_cases hn : e.state.hover = some n
    · exact .inl hn
    · exact .inr ⟨marked, hn⟩
  · rintro (hn | ⟨marked, -⟩)
    · exact h hn
    · exact marked

/-- After a turn a node is marked if it is hovered, or if it was marked and not hovered. -/
theorem Turn.hoverMarked_iff (t : Turn q e e') (h : e.state.hover = some n → e.HoverMarked n) :
    e'.HoverMarked n ↔ e'.state.hover = some n ∨ (e.HoverMarked n ∧ e.state.hover ≠ some n) := by
  cases t with
  | stays same => exact hoverMarked_iff_of_kept same.hover (same.marked n) h
  | comes k _ hover marked =>
    rw [marked, hover, Option.some_inj, eq_comm]
  | ends k was hover marked =>
    rw [marked, hover, was]
    simp [eq_comm]
  | lapses k _ was hover marked =>
    rw [marked, hover, was]
    simp [eq_comm]

/-- The news of changed elements takes no marks away, so a node keeps them that is forgotten. -/
theorem hoverMarked_contentChanged (h : e.state.hover = some n → e.HoverMarked n) :
    e.contentChanged.HoverMarked n ↔ e.contentChanged.state.hover = some n ∨
      (e.HoverMarked n ∧ (e.state.hover = some n → Forgets n e (.operate .contentChanged))) := by
  rw [hoverMarked_congr (contentChanged_only e) (by decide) (by decide), (contentChanged_settled e).hover]
  constructor
  · intro marked
    cases connected : e.page.document.isConnected n with
    | false => exact .inr ⟨marked, fun hn => ⟨rfl, hn, connected⟩⟩
    | true =>
      by_cases hn : e.state.hover = some n
      · exact .inl ⟨hn, rfl⟩
      · exact .inr ⟨marked, fun hn' => absurd hn' hn⟩
  · rintro (⟨hn, -⟩ | ⟨marked, -⟩)
    · exact h hn
    · exact marked

/-- A node keeps the marks that it had if it was not hovered, or if it is forgotten. -/
theorem hoverMarked_step (hx : x.Spares hoverParts) (h : e.state.hover = some n → e.HoverMarked n) :
    (e.step x).HoverMarked n ↔
      (e.step x).state.hover = some n ∨ (e.HoverMarked n ∧ (e.state.hover = some n → Forgets n e x)) := by
  have attentive : x ≠ .operate .contentChanged →
      ((e.state.hover = some n → Forgets n e x) ↔ e.state.hover ≠ some n) :=
    fun hx => ⟨fun forgets hn => hx (forgets hn).1, fun hn hn' => absurd hn' hn⟩
  cases x with
  | page x =>
    have edited := edit_only e x
    have spared : ∀ name, Part.attr name ∈ hoverParts → .page (.attr name) ∉ x.parts.map Aspect.page :=
      fun name hname => not_mem_of_spares hx _ (List.mem_append_left _ (List.mem_map_of_mem hname))
    rw [attentive (by simp)]
    exact hoverMarked_iff_of_kept (edited.hover_eq (by simp))
      (hoverMarked_congr edited (spared _ (by decide)) (spared _ (by decide)) n) h
  | clock time =>
    rw [attentive (by simp)]
    exact hoverMarked_iff_of_kept rfl Iff.rfl h
  | channel failing =>
    rw [attentive (by simp)]
    exact hoverMarked_iff_of_kept rfl Iff.rfl h
  | operate o =>
    by_cases ho : o = .contentChanged
    · subst ho
      exact hoverMarked_contentChanged h
    · rw [attentive fun hx => ho (Step.operate.inj hx)]
      exact (turn_operate ho).hoverMarked_iff h

/-! ## Runs -/

/-- While nothing is hovered no node is stranded. -/
theorem Stranded.of_append {e : HeadlessEditor} (h : e.Stranded (xs ++ ys) n)
    (idle : ∀ zs, zs <+: ys → (e.run (xs ++ zs)).state.hover = none) : e.Stranded xs n := by
  induction ys using List.reverseRecOn with
  | nil => simpa using h
  | append_singleton ys y ih =>
    rw [← List.append_assoc] at h
    rcases (since_snoc.1 h).2 with before | ⟨-, hover, -⟩
    · exact ih before fun zs hzs => idle zs (hzs.trans (List.prefix_append _ _))
    · rw [idle ys (List.prefix_append _ _)] at hover
      simp at hover

/-- In every state of every run the marked nodes are the one that is hovered and those that are stranded. -/
theorem hoverMarked_iff_run (bare : ¬ e.HoverMarked n) (free : e.state.hover = none)
    (hxs : ∀ x ∈ xs, x.Spares hoverParts) :
    (e.run xs).HoverMarked n ↔ (e.run xs).state.hover = some n ∨ e.Stranded xs n := by
  induction xs using List.reverseRecOn with
  | nil =>
    refine ⟨fun marked => absurd marked bare, ?_⟩
    rintro (hover | stranded)
    · simp [run, free] at hover
    · exact absurd stranded not_since_nil
  | append_singleton xs x ih =>
    -- what the run before says of the marks is what the step needs: a hovered node is marked
    have marked := ih fun y hy => hxs y (List.mem_append_left _ hy)
    have step := hoverMarked_step (hxs x (by simp)) fun hn => marked.2 (.inl hn)
    rw [run_append, show (e.run xs).run [x] = (e.run xs).step x from rfl, step, marked]
    have snoc : e.Stranded (xs ++ [x]) n ↔
        ((e.run xs).step x).state.hover ≠ some n ∧ (e.Stranded xs n ∨ Forgets n (e.run xs) x) := by
      refine since_snoc.trans ?_
      rw [run_append]
      rfl
    rw [snoc]
    constructor
    · rintro (hover | ⟨hover | stranded, forgotten⟩)
      · exact .inl hover
      · by_cases hn : ((e.run xs).step x).state.hover = some n
        · exact .inl hn
        · exact .inr ⟨hn, .inr (forgotten hover)⟩
      · by_cases hn : ((e.run xs).step x).state.hover = some n
        · exact .inl hn
        · exact .inr ⟨hn, .inl stranded⟩
    · rintro (hover | ⟨-, stranded | forgotten⟩)
      · exact .inl hover
      · exact .inr ⟨.inr stranded, fun hn => absurd hn stranded.last⟩
      · exact .inr ⟨.inl forgotten.2.1, fun _ => forgotten⟩

/-- Whatever the page moves, as long as it writes no marks itself: a node is marked exactly if it is hovered, or was
forgotten while it was hovered and has not been hovered since. Only while the editor is enabled a node is hovered, and
while it is disabled no node becomes marked. -/
theorem hoverMarks_run (d : Document) (config : EditorConfig) (time : String)
    (bare : ∀ n, ¬ (new d config time).HoverMarked n) (hxs : ∀ x ∈ xs, x.Spares hoverParts) :
    (∀ n, ((new d config time).run xs).HoverMarked n ↔
        ((new d config time).run xs).state.hover = some n ∨ (new d config time).Stranded xs n) ∧
      (((new d config time).run xs).state.mode ≠ .enabled →
        ((new d config time).run xs).state.hover = none) ∧
      ∀ ys, (∀ y ∈ ys, y.Spares hoverParts) →
        (∀ zs, zs <+: ys → ((new d config time).run (xs ++ zs)).state.mode = .disabled) →
          ∀ n, ((new d config time).run (xs ++ ys)).HoverMarked n →
            ((new d config time).run xs).HoverMarked n := by
  have calm : ∀ xs, Calm ((new d config time).run xs) := calm_run d config time
  have marked : ∀ {xs}, (∀ x ∈ xs, x.Spares hoverParts) → ∀ n, ((new d config time).run xs).HoverMarked n ↔
      ((new d config time).run xs).state.hover = some n ∨ (new d config time).Stranded xs n :=
    fun hxs n => hoverMarked_iff_run (bare n) rfl hxs
  refine ⟨marked hxs, calm xs, ?_⟩
  intro ys hys disabled n hn
  have idle : ∀ zs, zs <+: ys → ((new d config time).run (xs ++ zs)).state.hover = none := by
    intro zs hzs
    refine calm _ ?_
    rw [disabled zs hzs]
    decide
  have spared : ∀ x ∈ xs ++ ys, x.Spares hoverParts := List.forall_mem_append.2 ⟨hxs, hys⟩
  rcases (marked spared n).1 hn with hover | stranded
  · rw [idle ys (List.prefix_refl _)] at hover
    simp at hover
  · exact (marked hxs n).2 (.inr (stranded.of_append idle))

/-- A paragraph is taken out of the document while it is hovered, and put back after the editor has heard of it; then
another one is hovered, and at last the editor is disabled. -/
def strandingRun : List Step :=
  [.page (.appendIdentified 0 "p" "a.tsx:1:2"), .page (.appendIdentified 0 "p" "a.tsx:2:2"),
    .operate (.setMode .enabled), .operate (.event (.pointerOver 1)), .page (.remove 1),
    .operate .contentChanged, .page (.appendChild 0 1), .operate (.event (.pointerOver 2)),
    .operate (.setMode .disabled)]

/-- The first paragraph is stranded, the second one is not. -/
theorem hoverMarks_run_two :
    (new .empty {} "").Stranded strandingRun 1 ∧ ¬ (new .empty {} "").Stranded strandingRun 2 := by
  have bare : ∀ n, ¬ (new .empty {} "").HoverMarked n := by
    rintro n (marked | marked)
    · simp [new, Document.attribute?_empty] at marked
    · simp [new, Document.attribute?_empty] at marked
  have spared : ∀ x ∈ strandingRun, x.Spares hoverParts := by decide
  obtain ⟨marked, -, -⟩ := hoverMarks_run .empty {} "" bare spared
  have unhovered : ((new .empty {} "").run strandingRun).state.hover = none := by decide +kernel
  have first : ((new .empty {} "").run strandingRun).HoverMarked 1 := by decide +kernel
  have second : ¬ ((new .empty {} "").run strandingRun).HoverMarked 2 := by decide +kernel
  refine ⟨?_, fun stranded => second ((marked 2).2 (.inr stranded))⟩
  rcases (marked 1).1 first with hover | stranded
  · rw [unhovered] at hover
    simp at hover
  · exact stranded

/-- The first paragraph is in the document and marked, while nothing is hovered and after the editor was disabled. -/
theorem stale_hoverMark : let e := (new .empty {} "").run strandingRun
    e.state.mode = .disabled ∧ e.state.hover = none ∧ e.page.document.isConnected 1 = true ∧
      e.page.document.attribute? 1 Overlay.hoveredAttribute = some "true" := by
  decide +kernel

end InPlace.Editor

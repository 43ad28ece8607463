import InPlace.Proofs.Editing.Writes

/-!
# The tree in every run

The page makes nodes and moves them, the editor writes texts and takes elements out, and both do it in any order. As long
as the page puts no node inside of itself, the document is a forest all along, and every loop and recursion over it ends.

Main statement: `forest_run`.
-/

namespace InPlace

open Headless (Document Content)
open Headless.Document (body)

/-- What a node answers to the question for the nearest element with an identity, if it has an answer. -/
def Headless.Document.nearest? (d : Document) (n : NodeId) : Option (Option NodeId) :=
  if n = body then some none
  else if (d.attribute? n identityAttribute).isSome then some (some n)
  else none

namespace Editor

variable {e : HeadlessEditor} {x : Step} {xs : List Step} {n : NodeId}

/-- The loops up from a node and the recursions down from it end with what is said of the node. -/
structure WalksEnd (e : HeadlessEditor) (n : NodeId) : Prop where
  isConnected : e.page.document.nodes.Climb (fun a => if a = body then some true else none) false n
    (e.page.document.isConnected n)
  whiteSpace : e.page.document.nodes.Climb e.page.document.ownWhiteSpace? "normal" n (e.page.document.whiteSpace n)
  identified? : e.page.document.nodes.Climb e.page.document.nearest? none n (e.identified? n)
  contains : ∀ outer, e.page.document.nodes.Climb (fun a => if a = outer then some true else none) false n
    (e.contains outer n)
  textContent : ∃ texts,
    e.page.document.nodes.Descent Content.isElement (fun m => (e.page.document.text? m).toList) n texts ∧
      e.page.document.textContent n = String.join texts
  identified : e.page.document.nodes.Descent Content.isElement
    (fun m => if (e.page.document.element? m).any Document.hasIdentity then [m] else []) n
    ((e.page.document.preorder n).filter fun m => (e.page.document.element? m).any Document.hasIdentity)

/-- The nearest element with an identity is found by a loop up, which the body ends. -/
theorem climb_identified? (h : e.page.document.Stored) (hn : n < e.page.document.nodes.fresh) :
    e.page.document.nodes.Climb e.page.document.nearest? none n (e.identified? n) := by
  have found : ∀ as : List NodeId, (as.findSome? e.page.document.nearest?).getD none =
      (as.takeWhile fun a => !(a == body)).find? fun a =>
        (e.page.document.attribute? a identityAttribute).isSome := by
    intro as
    induction as with
    | nil => rfl
    | cons a as ih =>
      rw [List.findSome?_cons, List.takeWhile_cons, Document.nearest?]
      by_cases ha : a = body
      · simp [ha]
      · by_cases marked : (e.page.document.attribute? a identityAttribute).isSome = true
        · simp [ha, marked]
        · simpa [ha, marked] using ih
  have climb := h.intact.climb e.page.document.nearest? none hn
  rw [found] at climb
  exact climb

theorem walksEnd (h : e.page.document.Stored) (hn : n < e.page.document.nodes.fresh) : WalksEnd e n where
  isConnected := h.intact.climb_isWithin body hn
  whiteSpace := h.intact.climb e.page.document.ownWhiteSpace? "normal" hn
  identified? := climb_identified? h hn
  contains outer := h.intact.climb_isWithin outer hn
  textContent := h.descent_textContent hn
  identified := h.descent_identified hn

/-! ## Runs -/

/-- Each step of a run fits the document that the steps before it have left. -/
def FitsAll (e : HeadlessEditor) : List Step → Prop
  | [] => True
  | x :: xs => x.Fits e.page.document ∧ (e.step x).FitsAll xs

/-- Each step of a run that the page makes puts nodes only under elements. -/
def UsesElements (e : HeadlessEditor) : List Step → Prop
  | [] => True
  | x :: xs => (∀ n ∈ x.parents, (e.page.document.element? n).isSome) ∧ (e.step x).UsesElements xs

instance decidableFitsAll (e : HeadlessEditor) : (xs : List Step) → Decidable (e.FitsAll xs)
  | [] => isTrue trivial
  | x :: xs =>
    have := decidableFitsAll (e.step x) xs
    inferInstanceAs (Decidable (_ ∧ _))

instance decidableUsesElements (e : HeadlessEditor) : (xs : List Step) → Decidable (e.UsesElements xs)
  | [] => isTrue trivial
  | x :: xs =>
    have := decidableUsesElements (e.step x) xs
    inferInstanceAs (Decidable (_ ∧ _))

theorem stored_step (h : e.page.document.Stored) (held : HoldsElements e) (fits : x.Fits e.page.document) :
    (e.step x).page.document.Stored := by
  obtain ⟨ys, heq, allFit, -⟩ := exists_edits_step held fits
  rw [heq]
  exact h.edited allFit

/-- Only elements hold others after a step, if the page hangs nodes under elements alone. -/
theorem onlyElementsHold_step (h : e.page.document.OnlyElementsHold) (held : HoldsElements e)
    (fits : x.Fits e.page.document) (elements : ∀ n ∈ x.parents, (e.page.document.element? n).isSome) :
    (e.step x).page.document.OnlyElementsHold := by
  obtain ⟨ys, heq, -, uses⟩ := exists_edits_step held fits
  rw [heq]
  exact Document.onlyElementsHold_edited h (uses elements)

/-- What nodes refer to is stored after every run. -/
theorem stored_run (h : e.page.document.Stored) (held : HoldsElements e) (fits : e.FitsAll xs) :
    (e.run xs).page.document.Stored := by
  induction xs generalizing e with
  | nil => exact h
  | cons x xs ih =>
    rw [run_cons]
    exact ih (stored_step h held fits.1) (holdsElements_step x held) fits.2

/-- Only elements hold others after every run. -/
theorem onlyElementsHold_run (h : e.page.document.OnlyElementsHold) (held : HoldsElements e) (fits : e.FitsAll xs)
    (uses : e.UsesElements xs) : (e.run xs).page.document.OnlyElementsHold := by
  induction xs generalizing e with
  | nil => exact h
  | cons x xs ih =>
    rw [run_cons]
    exact ih (onlyElementsHold_step h held fits.1 uses.1) (holdsElements_step x held) fits.2 uses.2

/-- Whatever the page and the editor do, one after the other, as long as no node is put inside of itself:

* the document is a forest, and it stores only nodes that it has (`Document.Stored`);
* every loop and recursion over it ends, at every node, and a node is connected exactly if it can be reached from the
  body through the lists of children;
* if the page has used only elements as parents, the elements with an identity that are found are all those that are
  connected, each of them once and in the order of the tree. -/
theorem forest_run (config : EditorConfig) (time : String) (fits : (new .empty config time).FitsAll xs) :
    let e := (new .empty config time).run xs
    let d := e.page.document
    d.Stored ∧
      (∀ n < d.nodes.fresh, WalksEnd e n) ∧
      (∀ n, d.isConnected n = true ↔ Relation.ReflTransGen (fun p c => c ∈ d.nodes.children p) body n) ∧
      ((new .empty config time).UsesElements xs →
        d.identified.Pairwise d.nodes.Before ∧ d.identified.Nodup ∧
          ∀ n, n ∈ d.identified ↔ d.isConnected n = true ∧ (d.element? n).any Document.hasIdentity = true) := by
  intro e d
  have held := holdsElements_new .empty config time
  have stored : d.Stored := stored_run Document.empty_stored held fits
  refine ⟨stored, fun n hn => walksEnd stored hn, fun n => stored.intact.isWithin_iff_reachable stored.body,
    fun uses => ?_⟩
  have elements : d.OnlyElementsHold := onlyElementsHold_run Document.empty_onlyElementsHold held fits uses
  exact ⟨stored.pairwise_identified, stored.nodup_identified, fun n => stored.mem_identified_iff elements⟩

/-- Two paragraphs are put into a section, the text of the first one is edited, and the page moves it behind the
section. -/
theorem forest_run_moved :
    let xs : List Step := [.page (.appendElement 0 "section"), .page (.appendIdentified 1 "p" "a.tsx:1:2"),
      .page (.appendText 2 "Hi"), .page (.appendIdentified 0 "p" "a.tsx:2:2"), .page (.appendChild 1 4),
      .operate (.setMode .enabled), .operate (.event (.click 2)), .operate (.command (.updateText "Hello")),
      .page (.appendChild 0 2)]
    let d := ((new .empty {} "").run xs).page.document
    d.identified = [4, 2] ∧ [4, 2].Pairwise d.nodes.Before ∧ ¬ d.nodes.Loops 2 ∧
      Relation.ReflTransGen (fun p c => c ∈ d.nodes.children p) body 4 := by
  intro xs d
  obtain ⟨stored, -, reached, listed⟩ := @forest_run xs {} "" (by decide +kernel)
  have found : d.identified = [4, 2] := by decide +kernel
  refine ⟨found, ?_, stored.intact.loops 2, (reached 4).1 (by decide +kernel)⟩
  rw [← found]
  exact (listed (by decide +kernel)).1

end Editor

end InPlace

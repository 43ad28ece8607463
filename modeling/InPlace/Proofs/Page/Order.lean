import InPlace.Proofs.Page.Trees
import Mathlib.Logic.Relation

/-!
# The order of a tree

A loop that goes up through the parents, and a recursion that goes down through the children, are said here without any
bound on their steps: `Climb` and `Descent` hold of a node and a result if the loop or the recursion ends with it. In a
forest in order both end at every node, and the walks that are bounded by the number of nodes give their results.

One node comes before another in the order of the tree if it is above it, or if both are below two siblings in the order
of their list (`Before`). In this order a walk down lists what it finds, so it finds nothing twice.

Main statements: `Intact.climb`, `Intact.descent`, `Intact.isWithin_iff_reachable`, `Intact.pairwise_preorder` and
`Intact.mem_preorder_iff`.
-/

namespace InPlace.Forest

variable {α β : Type} {f : Forest α} {inner : α → Bool} {ask : NodeId → Option β} {otherwise x x' : β}
  {take : NodeId → List β} {bs bs' : List β} {k n m p r a b : Nat}

/-! ## Loops that go up -/

/-- A loop asks a node, and then its parent, until there is an answer. Above the top the answer is `otherwise`. -/
inductive Climb (f : Forest α) (ask : NodeId → Option β) (otherwise : β) : NodeId → β → Prop where
  | answered {n : NodeId} {b : β} (found : ask n = some b) : Climb f ask otherwise n b
  | above {n p : NodeId} {b : β} (unknown : ask n = none) (hp : f.parent? n = some p)
    (rest : Climb f ask otherwise p b) : Climb f ask otherwise n b
  | top {n : NodeId} (unknown : ask n = none) (hp : f.parent? n = none) : Climb f ask otherwise n otherwise

/-- A loop has one result. -/
theorem Climb.unique (h : f.Climb ask otherwise n x) (h' : f.Climb ask otherwise n x') : x = x' := by
  induction h with
  | answered found =>
    cases h' with
    | answered found' => exact Option.some.inj (found.symm.trans found')
    | above unknown => cases found.symm.trans unknown
    | top unknown => cases found.symm.trans unknown
  | above unknown hp _ ih =>
    cases h' with
    | answered found' => cases found'.symm.trans unknown
    | above _ hp' rest' =>
      cases hp.symm.trans hp'
      exact ih rest'
    | top _ hp' => cases hp.symm.trans hp'
  | top unknown hp =>
    cases h' with
    | answered found' => cases found'.symm.trans unknown
    | above _ hp' _ => cases hp.symm.trans hp'
    | top => rfl

/-- In a forest in order every loop up ends, with the first answer that an ancestor gives. -/
theorem Intact.climb (h : f.Intact) (ask : NodeId → Option β) (otherwise : β) (hn : n < f.fresh) :
    f.Climb ask otherwise n (((f.ancestors n).findSome? ask).getD otherwise) := by
  refine h.upward_induction (P := fun n => f.Climb ask otherwise n (((f.ancestors n).findSome? ask).getD otherwise))
    (fun n hn ih => ?_) hn
  cases hp : f.parent? n with
  | none =>
    rw [ancestors_of_parent?_eq_none hn hp, List.findSome?_singleton]
    cases found : ask n with
    | none => exact .top found hp
    | some b => exact .answered found
  | some p =>
    rw [h.ancestors_of_parent? hp, List.findSome?_cons]
    cases found : ask n with
    | none => exact .above found hp (ih p hp)
    | some b => exact .answered found

/-- Whether a node is within another one is found out by a loop up. -/
theorem Intact.climb_isWithin (h : f.Intact) (outer : NodeId) (hn : n < f.fresh) :
    f.Climb (fun a => if a = outer then some true else none) false n (f.isWithin outer n) := by
  have found : ∀ as : List NodeId,
      (as.findSome? fun a => if a = outer then some true else none).getD false = as.contains outer := by
    intro as
    induction as with
    | nil => rfl
    | cons a as ih =>
      rw [List.findSome?_cons, List.contains_cons, ← ih]
      by_cases ha : a = outer
      · simp [ha]
      · simp [ha, Ne.symm ha]
  have climb := h.climb (fun a => if a = outer then some true else none) false hn
  rw [found] at climb
  exact climb

/-! ## Recursions that go down -/

/-- A recursion lists what it takes of a node, and, if the node is one to look into, what it lists of each child. -/
inductive Descent (f : Forest α) (inner : α → Bool) (take : NodeId → List β) : NodeId → List β → Prop where
  | outer {n : NodeId} (kind : (f.content? n).any inner = false) : Descent f inner take n (take n)
  | inner {n : NodeId} (lists : NodeId → List β) (kind : (f.content? n).any inner = true)
    (below : ∀ c ∈ f.children n, Descent f inner take c (lists c)) :
    Descent f inner take n (take n ++ (f.children n).flatMap lists)

/-- A recursion has one result. -/
theorem Descent.unique (h : f.Descent inner take n bs) (h' : f.Descent inner take n bs') : bs = bs' := by
  induction h generalizing bs' with
  | outer kind =>
    cases h' with
    | outer => rfl
    | inner _ kind' => cases kind.symm.trans kind'
  | inner lists kind _ ih =>
    cases h' with
    | outer kind' => cases kind.symm.trans kind'
    | inner lists' _ below' =>
      rw [List.flatMap_congr fun c hc => ih c hc (below' c hc)]

/-- In a forest in order every recursion down ends, and it comes to the nodes in the order of the walk. -/
theorem Intact.descent (h : f.Intact) (inner : α → Bool) (take : NodeId → List β) (hn : n < f.fresh) :
    f.Descent inner take n ((f.preorder inner n).flatMap take) := by
  refine h.downward_induction (P := fun n => f.Descent inner take n ((f.preorder inner n).flatMap take))
    (fun n hn ih => ?_) hn
  rw [h.preorder_eq inner hn]
  cases kind : (f.content? n).any inner with
  | false =>
    rw [if_neg Bool.false_ne_true, List.flatMap_singleton]
    exact .outer kind
  | true =>
    rw [if_pos rfl, List.flatMap_cons, List.flatMap_assoc]
    exact .inner _ kind ih

/-! ## What a walk finds -/

/-- A node is within another one exactly if it can be reached from there through the lists of children. -/
theorem Intact.isWithin_iff_reachable (h : f.Intact) (hn : n < f.fresh) :
    f.isWithin n m = true ↔ Relation.ReflTransGen (fun p c => c ∈ f.children p) n m := by
  rw [isWithin_iff hn]
  constructor
  · rintro ⟨k, hk⟩
    induction k generalizing m with
    | zero =>
      rw [Option.some.inj hk]
    | succ k ih =>
      obtain ⟨p, hp, rest⟩ := Option.bind_eq_some_iff.1 hk
      exact (ih rest).tail (h.listed m p hp)
  · intro reach
    induction reach with
    | refl => exact ⟨0, rfl⟩
    | tail _ hc ih =>
      obtain ⟨k, hk⟩ := ih
      exact ⟨k + 1, (up_succ_of_parent? (h.linked _ _ hc) k).trans hk⟩

/-- A walk that finds a node to look into finds its children. -/
theorem mem_preorderWithin_of_children (hp : (f.content? p).any inner = true) (hm : m ∈ f.children p)
    (found : p ∈ f.preorderWithin inner k n) : m ∈ f.preorderWithin inner (k + 1) n := by
  induction k generalizing n with
  | zero => cases found
  | succ k ih =>
    rcases mem_preorderWithin_succ.1 found with rfl | ⟨hn, c, hc, below⟩
    · exact mem_preorderWithin_succ.2 (.inr ⟨hp, m, hm, mem_preorderWithin_self f inner k m⟩)
    · exact mem_preorderWithin_succ.2 (.inr ⟨hn, c, hc, ih below⟩)

/-- Where only nodes to look into have children, a walk finds all that is within its start. -/
theorem Intact.mem_preorder_iff (h : f.Intact) (parents : ∀ p, f.children p ≠ [] → (f.content? p).any inner = true)
    (hn : n < f.fresh) : m ∈ f.preorder inner n ↔ f.isWithin n m = true := by
  refine ⟨h.linked.isWithin_of_mem hn, fun within => ?_⟩
  obtain ⟨k, hk⟩ := (isWithin_iff hn).1 within
  clear within
  -- on the steps of the climb: the walk that finds the parent finds the node
  induction k generalizing m with
  | zero =>
    rw [Option.some.inj hk]
    exact h.linked.mem_preorder hn (mem_preorderWithin_self f inner 0 n)
  | succ k ih =>
    obtain ⟨p, hp, rest⟩ := Option.bind_eq_some_iff.1 hk
    have listed := h.listed m p hp
    exact h.linked.mem_preorder hn
      (mem_preorderWithin_of_children (parents p (List.ne_nil_of_mem listed)) listed (ih rest))

/-! ## The order -/

/-- A node comes before another one if it is above it, or if it is below an earlier sibling. -/
inductive Before (f : Forest α) : NodeId → NodeId → Prop where
  | above {n m : NodeId} (other : n ≠ m) (within : f.isWithin n m = true) : Before f n m
  | beside {p a b n m : NodeId} (siblings : [a, b].Sublist (f.children p)) (hn : f.isWithin a n = true)
    (hm : f.isWithin b m = true) : Before f n m

/-- In a list without repetition two entries stand in one order only. -/
theorem not_sublist_swap {cs : List NodeId} (once : cs.Nodup) (h : [a, b].Sublist cs) : ¬ [b, a].Sublist cs := by
  induction cs with
  | nil => cases h
  | cons c cs ih =>
    obtain ⟨fresh, once⟩ := List.nodup_cons.1 once
    intro h'
    cases h with
    | cons _ h =>
      cases h' with
      | cons _ h' => exact ih once h h'
      | cons_cons _ h' => exact fresh (h.subset (by simp))
    | cons_cons _ h =>
      cases h' with
      | cons _ h' => exact fresh (h'.subset (by simp))
      | cons_cons _ h' => exact fresh (h.subset (by simp))

namespace Intact

variable (h : f.Intact)

include h

theorem ne_of_siblings (siblings : [a, b].Sublist (f.children p)) : a ≠ b := by
  have once := (h.once p).sublist siblings
  simpa using once

theorem parent?_of_siblings (siblings : [a, b].Sublist (f.children p)) :
    f.parent? a = some p ∧ f.parent? b = some p :=
  ⟨h.linked p a (siblings.subset (by simp)), h.linked p b (siblings.subset (by simp))⟩

/-- What is below two siblings is not within each other. -/
theorem apart_of_siblings (siblings : [a, b].Sublist (f.children p)) (hn : f.isWithin a n = true)
    (hm : f.isWithin b m = true) : f.isWithin n m = false ∧ f.isWithin m n = false := by
  obtain ⟨ha, hb⟩ := h.parent?_of_siblings siblings
  have other := h.ne_of_siblings siblings
  refine ⟨eq_false_of_ne_true fun within => ?_, eq_false_of_ne_true fun within => ?_⟩
  · exact other (h.eq_of_siblings ha hb (isWithin_trans (lt_fresh_of_parent? ha) hn within) hm)
  · exact other (h.eq_of_siblings ha hb hn (isWithin_trans (lt_fresh_of_parent? hb) hm within))

/-- No two nodes come before each other. -/
theorem before_asymm (before : f.Before n m) : ¬ f.Before m n := by
  intro after
  cases before with
  | above other within =>
    cases after with
    | above _ within' => exact other (h.isWithin_antisymm within within')
    | beside siblings hm hn =>
      exact Bool.false_ne_true ((h.apart_of_siblings siblings hm hn).2.symm.trans within)
  | @beside p a b _ _ siblings hn hm =>
    cases after with
    | above _ within' =>
      exact Bool.false_ne_true ((h.apart_of_siblings siblings hn hm).2.symm.trans within')
    | @beside q c d _ _ siblings' hm' hn' =>
      obtain ⟨ha, hb⟩ := h.parent?_of_siblings siblings
      obtain ⟨hc, hd⟩ := h.parent?_of_siblings siblings'
      by_cases had : d = a
      · subst had
        cases hd.symm.trans ha
        obtain rfl := h.eq_of_siblings hb hc hm hm'
        exact not_sublist_swap (h.once p) siblings siblings'
      · rcases isWithin_total (lt_fresh_of_parent? ha) (lt_fresh_of_parent? hd) hn hn' with within | within
        · have below := isWithin_sibling (lt_fresh_of_parent? ha) had hd hc within
          exact h.ne_of_siblings siblings
            (h.eq_of_siblings ha hb (isWithin_trans (lt_fresh_of_parent? ha) below hm') hm)
        · have below := isWithin_sibling (lt_fresh_of_parent? hd) (Ne.symm had) ha hb within
          exact h.ne_of_siblings siblings'
            (h.eq_of_siblings hc hd hm' (isWithin_trans (lt_fresh_of_parent? hd) below hm))

/-- A walk lists what it finds in the order of the tree. -/
theorem pairwise_preorder (inner : α → Bool) (hn : n < f.fresh) : (f.preorder inner n).Pairwise f.Before := by
  refine h.downward_induction (P := fun n => (f.preorder inner n).Pairwise f.Before) (fun n hn ih => ?_) hn
  rw [h.preorder_eq inner hn]
  split
  · -- the node is above all else, the walk of each child is in order, and two children are in the order of their list
    refine List.pairwise_cons.2 ⟨fun m hm => ?_, List.pairwise_flatMap.2 ⟨ih, ?_⟩⟩
    · obtain ⟨c, hc, found⟩ := List.mem_flatMap.1 hm
      have hp := h.linked n c hc
      have below := h.linked.isWithin_of_mem (lt_fresh_of_parent? hp) found
      have above : f.isWithin n c = true := (h.isWithin_iff_reachable hn).2 (.single hc)
      refine .above ?_ (isWithin_trans hn above below)
      rintro rfl
      obtain rfl := h.isWithin_antisymm above below
      exact h.up_ne_of_parent? hp 0 rfl
    · refine List.pairwise_iff_forall_sublist.2 fun siblings x hx y hy => ?_
      obtain ⟨ha, hb⟩ := h.parent?_of_siblings siblings
      exact .beside siblings (h.linked.isWithin_of_mem (lt_fresh_of_parent? ha) hx)
        (h.linked.isWithin_of_mem (lt_fresh_of_parent? hb) hy)
  · exact List.pairwise_singleton _ n

end Intact

/-- What is listed in the order of the tree is listed once. -/
theorem Intact.nodup_of_pairwise (h : f.Intact) {ns : List NodeId} (ordered : ns.Pairwise f.Before) : ns.Nodup := by
  refine List.nodup_iff_pairwise_ne.2 (ordered.imp ?_)
  rintro n _ before rfl
  exact h.before_asymm before before

end InPlace.Forest

import InPlace.Proofs.Headless.Linked
import Mathlib.Data.Finset.Card
import Mathlib.Order.Interval.Finset.Nat

/-!
# Walks through a forest

The walk down from a node is given as many levels as there are nodes. In a linked forest that is enough: a shortest way
down meets no node twice. So what is found does not depend on how many nodes there are beside.

Main statements: `Linked.mem_preorder` (a walk misses nothing), `children_detach` and `children_append` (the lists of
children after a node was moved).
-/

namespace InPlace.Forest

variable {α : Type} {f g : Forest α} {inner : α → Bool} {k j n m : Nat}

/-! ## Lists of children after a change -/

/-- A node is taken out of the list of its parent, and out of no other. -/
theorem children_detach (f : Forest α) (n p : NodeId) :
    (f.detach n).children p =
      if f.parent? n = some p then (f.children p).filter (· != n) else f.children p := by
  unfold detach
  cases hp : f.parent? n with
  | none => simp
  | some q =>
    have orphaned := children_modify_of_children
      (f.modify q fun c => { c with children := c.children.filter (· != n) }) n p
      (g := fun c => { c with parent := none }) fun _ => rfl
    dsimp only
    rw [orphaned, children, children, cell?_modify]
    by_cases hq : q = p
    · subst hq
      rw [if_pos rfl, if_pos rfl]
      cases f.cell? q <;> rfl
    · rw [if_neg hq, if_neg fun h => hq (Option.some.inj h)]

/-- A node is put at the end of the list of its new parent. -/
theorem children_append (f : Forest α) {parent child : NodeId} (h : (f.content? parent).isSome) (p : NodeId) :
    (f.append parent child).children p =
      (f.detach child).children p ++ (if p = parent then [child] else []) := by
  have named : ∀ p, ((f.detach child).modify child fun c => { c with parent := some parent }).children p =
      (f.detach child).children p :=
    fun p => children_modify_of_children _ child p fun _ => rfl
  have content := content?_modify_of_content (f.detach child) child parent
    (g := fun c => { c with parent := some parent }) fun _ => rfl
  rw [content?_detach] at content
  rw [append, ← named p, children, cell?_modify]
  by_cases hp : parent = p
  · subst hp
    rw [if_pos rfl, if_pos rfl, children]
    cases hc : ((f.detach child).modify child fun c => { c with parent := some parent }).cell? parent with
    | none =>
      rw [← content, content?, hc] at h
      simp at h
    | some cell => rfl
  · rw [if_neg hp, if_neg (Ne.symm hp), List.append_nil]
    rfl

theorem children_push (f : Forest α) (a : α) (p : NodeId) : (f.push a).children p = f.children p := by
  unfold children
  rw [cell?_push]
  split
  · rename_i hp
    rw [hp, show f.cell? f.fresh = none from Array.getElem?_eq_none (Nat.le_refl _)]
    rfl
  · rfl

theorem parent?_push (f : Forest α) (a : α) (n : NodeId) : (f.push a).parent? n = f.parent? n := by
  unfold parent?
  rw [cell?_push]
  split
  · rename_i hn
    rw [hn, show f.cell? f.fresh = none from Array.getElem?_eq_none (Nat.le_refl _)]
    rfl
  · rfl

theorem fresh_push (f : Forest α) (a : α) : (f.push a).fresh = f.fresh + 1 :=
  Array.size_push _

theorem fresh_detach (f : Forest α) (n : NodeId) : (f.detach n).fresh = f.fresh := by
  unfold detach
  split
  · rfl
  · rw [fresh_modify, fresh_modify]

theorem fresh_append (f : Forest α) (parent child : NodeId) : (f.append parent child).fresh = f.fresh := by
  unfold append
  rw [fresh_modify, fresh_modify, fresh_detach]

/-- Only nodes that were made have children. -/
theorem children_of_fresh_le (h : f.fresh ≤ n) : f.children n = [] := by
  unfold children
  rw [show f.cell? n = none from Array.getElem?_eq_none h]
  rfl

theorem Linked.lt_fresh (h : f.Linked) (hc : m ∈ f.children n) : m < f.fresh :=
  lt_fresh_of_parent? (h n m hc)

theorem not_mem_children_detach (h : f.Linked) (n p : NodeId) : n ∉ (f.detach n).children p := by
  intro hin
  have hp := h.detach n p n hin
  rw [parent?_detach, if_pos rfl] at hp
  cases hp

/-! ## How deep a walk goes -/

theorem preorderWithin_succ (f : Forest α) (inner : α → Bool) (k : Nat) (n : NodeId) :
    f.preorderWithin inner (k + 1) n =
      if (f.content? n).any inner then n :: (f.children n).flatMap (f.preorderWithin inner k) else [n] :=
  rfl

theorem mem_preorderWithin_self (f : Forest α) (inner : α → Bool) (k n : Nat) :
    n ∈ f.preorderWithin inner (k + 1) n := by
  rw [preorderWithin_succ]
  split
  · exact List.mem_cons_self
  · exact List.mem_singleton_self n

/-- A walk comes to the start, and from the start to what is below its children. -/
theorem mem_preorderWithin_succ :
    m ∈ f.preorderWithin inner (k + 1) n ↔
      m = n ∨ (f.content? n).any inner = true ∧ ∃ c ∈ f.children n, m ∈ f.preorderWithin inner k c := by
  rw [preorderWithin_succ]
  split
  · rename_i hn
    rw [List.mem_cons, List.mem_flatMap]
    exact or_congr_right (iff_and_self.2 fun _ => hn)
  · rename_i hn
    rw [List.mem_singleton]
    exact (or_iff_left fun h => hn h.1).symm

/-- A deeper walk misses nothing that a shorter one finds. -/
theorem preorderWithin_mono (hkj : k ≤ j) (h : m ∈ f.preorderWithin inner k n) :
    m ∈ f.preorderWithin inner j n := by
  induction k generalizing n j with
  | zero => cases h
  | succ k ih =>
    obtain ⟨j, rfl⟩ := Nat.exists_eq_add_of_le' (Nat.le_trans (Nat.le_add_left 1 k) hkj)
    rcases mem_preorderWithin_succ.1 h with rfl | ⟨hn, c, hc, hm⟩
    · exact mem_preorderWithin_self f inner j m
    · exact mem_preorderWithin_succ.2 (.inr ⟨hn, c, hc, ih (by omega) hm⟩)

/-- Where no children are looked into, a walk comes no further. -/
theorem eq_of_mem_preorderWithin (hn : (f.content? n).any inner = false) (h : m ∈ f.preorderWithin inner k n) :
    m = n := by
  cases k with
  | zero => cases h
  | succ k =>
    rcases mem_preorderWithin_succ.1 h with rfl | ⟨looked, -⟩
    · rfl
    · rw [hn] at looked
      cases looked

/-- What a walk comes to after its start is a child of some node. -/
theorem exists_mem_children_of_mem_preorderWithin (other : m ≠ n) (h : m ∈ f.preorderWithin inner k n) :
    ∃ p, m ∈ f.children p := by
  induction k generalizing n with
  | zero => cases h
  | succ k ih =>
    rcases mem_preorderWithin_succ.1 h with same | ⟨-, c, hc, hm⟩
    · exact absurd same other
    · by_cases hmc : m = c
      · exact ⟨n, hmc ▸ hc⟩
      · exact ih hmc hm

/-- A walk finds what one in a forest with fewer children finds, and other nodes that are not looked into do not
count. -/
theorem mem_preorderWithin_of_fewer {g : Forest α}
    (looks : ∀ p, (g.content? p).any inner = true → (f.content? p).any inner = true)
    (fewer : ∀ p, ∀ c ∈ g.children p, c ∈ f.children p ∨ c ≠ m ∧ (g.content? c).any inner = false)
    (h : m ∈ g.preorderWithin inner k n) : m ∈ f.preorderWithin inner k n := by
  induction k generalizing n with
  | zero => cases h
  | succ k ih =>
    rcases mem_preorderWithin_succ.1 h with rfl | ⟨hn, c, hc, hm⟩
    · exact mem_preorderWithin_self f inner k m
    · rcases fewer n c hc with kept | ⟨other, leaf⟩
      · exact mem_preorderWithin_succ.2 (.inr ⟨looks n hn, c, kept, ih hm⟩)
      · exact absurd (eq_of_mem_preorderWithin leaf hm).symm other

/-- A node is found by a walk of `k + 1` levels and by no shorter one. -/
def FoundAt (f : Forest α) (inner : α → Bool) (m k n : Nat) : Prop :=
  m ∈ f.preorderWithin inner (k + 1) n ∧ m ∉ f.preorderWithin inner k n

/-- On a shortest way down the next node is one level nearer. -/
theorem FoundAt.next (h : f.FoundAt inner m (k + 1) n) : ∃ c ∈ f.children n, f.FoundAt inner m k c := by
  rcases mem_preorderWithin_succ.1 h.1 with rfl | ⟨hn, c, hc, hm⟩
  · exact absurd (mem_preorderWithin_self f inner k m) h.2
  · exact ⟨c, hc, hm, fun hshort => h.2 (mem_preorderWithin_succ.2 (.inr ⟨hn, c, hc, hshort⟩))⟩

/-- A shortest way down has a node at each distance. -/
theorem FoundAt.exists_at (hf : f.Linked) (hn : n < f.fresh) (h : f.FoundAt inner m k n) (hj : j ≤ k) :
    ∃ x < f.fresh, f.FoundAt inner m j x := by
  induction k generalizing n with
  | zero => exact ⟨n, hn, Nat.le_zero.1 hj ▸ h⟩
  | succ k ih =>
    rcases Nat.lt_or_ge k j with hlt | hle
    · exact ⟨n, hn, Nat.le_antisymm hj hlt ▸ h⟩
    · obtain ⟨c, hc, hfound⟩ := h.next
      exact ih (hf.lt_fresh hc) hfound hle

/-- A node is found at one distance only. -/
theorem FoundAt.unique (h : f.FoundAt inner m k n) (h' : f.FoundAt inner m j n) : k = j := by
  rcases Nat.lt_trichotomy k j with hlt | heq | hgt
  · exact absurd (preorderWithin_mono hlt h.1) h'.2
  · exact heq
  · exact absurd (preorderWithin_mono hgt h'.1) h.2

/-- Where each number up to `k` has a node of its own there are more than `k` nodes. -/
theorem lt_fresh_of_own {P : Nat → NodeId → Prop} (nodes : ∀ j ≤ k, ∃ x < f.fresh, P j x)
    (own : ∀ i ≤ k, ∀ j ≤ k, ∀ x, P i x → P j x → i = j) : k < f.fresh := by
  choose! node made has using nodes
  have few : (Finset.range (k + 1)).card ≤ (Finset.range f.fresh).card := by
    refine Finset.card_le_card_of_injOn node (fun j hj => ?_) fun i hi j hj hij => ?_
    · have hjk := Nat.lt_succ_iff.1 (Finset.mem_range.1 (Finset.mem_coe.1 hj))
      exact Finset.mem_coe.2 (Finset.mem_range.2 (made j hjk))
    · have hik := Nat.lt_succ_iff.1 (Finset.mem_range.1 (Finset.mem_coe.1 hi))
      have hjk := Nat.lt_succ_iff.1 (Finset.mem_range.1 (Finset.mem_coe.1 hj))
      exact own i hik j hjk (node j) (hij ▸ has i hik) (has j hjk)
  rw [Finset.card_range, Finset.card_range] at few
  exact few

/-- There are no more distances than nodes. -/
theorem FoundAt.lt_fresh (hf : f.Linked) (hn : n < f.fresh) (h : f.FoundAt inner m k n) : k < f.fresh :=
  lt_fresh_of_own (fun _ hj => h.exists_at hf hn hj) fun _ _ _ _ _ hi hj => hi.unique hj

/-- What a walk of any depth finds is found by the walk that has as many levels as there are nodes. -/
theorem Linked.mem_preorder (hf : f.Linked) (hn : n < f.fresh) (h : m ∈ f.preorderWithin inner k n) :
    m ∈ f.preorder inner n := by
  induction k with
  | zero => cases h
  | succ k ih =>
    by_cases hshort : m ∈ f.preorderWithin inner k n
    · exact ih hshort
    · have found : f.FoundAt inner m k n := ⟨h, hshort⟩
      exact preorderWithin_mono (found.lt_fresh hf hn) h

end InPlace.Forest

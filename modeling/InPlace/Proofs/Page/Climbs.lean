import InPlace.Proofs.Page.Walks

/-!
# Climbs through a forest

A climb goes from a node to its parent, and on from there. A node is within another one exactly if a climb from it
comes there. A climb that meets no node twice has fewer steps than there are nodes. So a walk up that is given as many
steps as there are nodes is never cut short, and neither is a walk down, if it starts at a node that is not inside of
itself.

From this follows what a walk finds when a node has been taken out: from outside of the node, what it found before
without the node and what is below it, in the same order (`Linked.preorderWithin_eq_filter`), and from inside of it all
that it found before (`Linked.preorderWithin_of_below`).

Main statements: `isWithin_iff`, `Linked.preorderWithin_of_fresh_le` and `Linked.preorderWithin_eq_filter`.
-/

namespace InPlace.Forest

variable {α : Type} {f g : Forest α} {inner : α → Bool} {i j k n m p r outer : Nat}

/-! ## Climbs -/

/-- The node that a climb of `k` steps comes to. -/
def up (f : Forest α) : Nat → NodeId → Option NodeId
  | 0, n => some n
  | k + 1, n => (f.parent? n).bind (up f k)

/-- A node is inside of itself. -/
def Loops (f : Forest α) (n : NodeId) : Prop :=
  ∃ k, f.up (k + 1) n = some n

theorem up_succ_of_parent? (hp : f.parent? n = some p) (k : Nat) : f.up (k + 1) n = f.up k p := by
  rw [up, hp, Option.bind_some]

theorem not_loops_of_parent? (h : f.parent? n = none) : ¬ f.Loops n := by
  rintro ⟨k, hk⟩
  rw [up, h] at hk
  cases hk

/-- To climb and climb on is one climb. -/
theorem up_add (f : Forest α) (j k : Nat) (n : NodeId) : f.up (j + k) n = (f.up j n).bind (f.up k) := by
  induction j generalizing n with
  | zero =>
    rw [Nat.zero_add]
    rfl
  | succ j ih =>
    rw [Nat.succ_add]
    cases hp : f.parent? n with
    | none => rw [up, up, hp, Option.bind_none, Option.bind_none, Option.bind_none]
    | some p => rw [up_succ_of_parent? hp, up_succ_of_parent? hp, ih]

/-- Two climbs, one from where the other one ends. -/
theorem up_trans (h : f.up j n = some m) (h' : f.up k m = some r) : f.up (j + k) n = some r := by
  rw [up_add, h, Option.bind_some, h']

/-- A climb stops over at each of its heights. -/
theorem exists_up_of_le (h : f.up k n = some r) (hi : i ≤ k) : ∃ x, f.up i n = some x ∧ f.up (k - i) x = some r := by
  rw [← Nat.add_sub_cancel' hi, up_add] at h
  obtain ⟨x, hx, hr⟩ := Option.bind_eq_some_iff.1 h
  exact ⟨x, hx, hr⟩

/-- A climb to a node begins at a node. -/
theorem lt_fresh_of_up (hr : r < f.fresh) (h : f.up k n = some r) : n < f.fresh := by
  cases k with
  | zero =>
    rw [Option.some.inj h]
    exact hr
  | succ k =>
    obtain ⟨p, hp, -⟩ := Option.bind_eq_some_iff.1 h
    exact lt_fresh_of_parent? hp

/-- A climb that meets no node twice has fewer steps than there are nodes. -/
theorem lt_fresh_of_once (hr : r < f.fresh) (h : f.up k n = some r)
    (once : ∀ i j, i < j → j ≤ k → f.up i n ≠ f.up j n) : k < f.fresh := by
  refine lt_fresh_of_own (P := fun i x => f.up i n = some x) (fun i hi => ?_) fun i hi j hj x hix hjx => ?_
  · obtain ⟨x, hx, rest⟩ := exists_up_of_le h hi
    exact ⟨x, lt_fresh_of_up hr rest, hx⟩
  · have same : f.up i n = f.up j n := hix.trans hjx.symm
    rcases Nat.lt_trichotomy i j with hlt | heq | hgt
    · exact absurd same (once i j hlt hj)
    · exact heq
    · exact absurd same.symm (once j i hgt hi)

/-- A climb to a node that is not inside of itself has fewer steps than there are nodes. -/
theorem lt_fresh_of_not_loops (hr : r < f.fresh) (loops : ¬ f.Loops r) (h : f.up k n = some r) : k < f.fresh := by
  refine lt_fresh_of_once hr h fun i j hij hjk same => loops ?_
  -- whoever meets a node twice on the way goes around between, and can go around from the end as well
  obtain ⟨x, hi, long⟩ := exists_up_of_le h (hij.le.trans hjk)
  obtain ⟨y, hj, short⟩ := exists_up_of_le h hjk
  obtain rfl : x = y := Option.some.inj (hi.symm.trans (same.trans hj))
  refine ⟨j - i - 1, ?_⟩
  have steps : k - i = (k - j) + (j - i - 1 + 1) := by omega
  rw [steps, up_add, short, Option.bind_some] at long
  exact long

/-! ## Nodes within a node -/

/-- The ancestors are where the climbs lead. -/
theorem mem_ancestorsWithin_iff : m ∈ f.ancestorsWithin k n ↔ ∃ i < k, f.up i n = some m := by
  induction k generalizing n with
  | zero =>
    rw [ancestorsWithin]
    simp
  | succ k ih =>
    cases hp : f.parent? n with
    | none =>
      rw [ancestorsWithin_of_free k hp, List.mem_singleton]
      constructor
      · rintro rfl
        exact ⟨0, k.succ_pos, rfl⟩
      · rintro ⟨i, -, hi⟩
        cases i with
        | zero => exact (Option.some.inj hi).symm
        | succ i =>
          rw [up, hp] at hi
          cases hi
    | some q =>
      rw [ancestorsWithin_of_parent? k hp, List.mem_cons, ih]
      constructor
      · rintro (rfl | ⟨i, hik, hi⟩)
        · exact ⟨0, k.succ_pos, rfl⟩
        · exact ⟨i + 1, Nat.succ_lt_succ hik, (up_succ_of_parent? hp i).trans hi⟩
      · rintro ⟨i, hik, hi⟩
        cases i with
        | zero => exact .inl (Option.some.inj hi).symm
        | succ i => exact .inr ⟨i, Nat.lt_of_succ_lt_succ hik, (up_succ_of_parent? hp i).symm.trans hi⟩

/-- A node is within another one if a climb of any length comes there. -/
theorem isWithin_iff (ho : outer < f.fresh) : f.isWithin outer n = true ↔ ∃ k, f.up k n = some outer := by
  unfold isWithin ancestors
  rw [List.contains_iff_mem, mem_ancestorsWithin_iff]
  constructor
  · rintro ⟨k, -, hk⟩
    exact ⟨k, hk⟩
  · intro reached
    -- a shortest climb meets no node twice
    have shortest := Nat.find_spec reached
    refine ⟨Nat.find reached, lt_fresh_of_once ho shortest fun i j hij hjk same => ?_, shortest⟩
    obtain ⟨x, hj, rest⟩ := exists_up_of_le shortest hjk
    exact Nat.find_min reached (m := i + (Nat.find reached - j)) (by omega) (up_trans (same.trans hj) rest)

theorem isWithin_self (hn : n < f.fresh) : f.isWithin n n = true :=
  (isWithin_iff hn).2 ⟨0, rfl⟩

/-- A node other than the outer one is within it exactly if its parent is. -/
theorem isWithin_parent? (ho : outer < f.fresh) (hne : n ≠ outer) (hp : f.parent? n = some p) :
    f.isWithin outer n = f.isWithin outer p := by
  rw [Bool.eq_iff_iff, isWithin_iff ho, isWithin_iff ho]
  constructor
  · rintro ⟨k, hk⟩
    cases k with
    | zero => exact absurd (Option.some.inj hk) hne
    | succ k => exact ⟨k, (up_succ_of_parent? hp k).symm.trans hk⟩
  · rintro ⟨k, hk⟩
    exact ⟨k + 1, (up_succ_of_parent? hp k).trans hk⟩

/-- What a walk finds from a node is within it. -/
theorem Linked.isWithin_of_mem (hf : f.Linked) (hn : n < f.fresh) (hm : m ∈ f.preorderWithin inner k n) :
    f.isWithin n m = true := by
  obtain ⟨i, -, hi⟩ := mem_ancestorsWithin_iff.1 (hf.mem_ancestorsWithin hm)
  exact (isWithin_iff hn).2 ⟨i, hi⟩

/-! ## Parents that are nodes -/

/-- Every parent is a node. -/
def Placed (f : Forest α) : Prop :=
  ∀ n p, f.parent? n = some p → p < f.fresh

theorem Placed.of_eq (h : f.Placed) (hfresh : g.fresh = f.fresh) (hp : ∀ n, g.parent? n = f.parent? n) :
    g.Placed := by
  intro n p hn
  rw [hfresh]
  exact h n p ((hp n).symm.trans hn)

theorem Placed.push (h : f.Placed) (a : α) : (f.push a).Placed := by
  intro n p hn
  rw [parent?_push] at hn
  rw [fresh_push]
  exact Nat.lt_succ_of_lt (h n p hn)

/-- Nodes stay where there are nodes when one is appended. -/
theorem Placed.append (h : f.Placed) {parent child : NodeId} (hp : parent < f.fresh) (hc : child < f.fresh) :
    (f.append parent child).Placed := by
  intro n p hn
  rw [parent?_append f (isSome_content?_iff.2 hc)] at hn
  rw [fresh_append]
  split at hn
  · rw [← Option.some.inj hn]
    exact hp
  · exact h n p hn

theorem Placed.pushUnder (h : f.Placed) {parent : NodeId} (hp : parent < f.fresh) (a : α) :
    (f.pushUnder parent a).Placed := by
  have made : f.fresh < (f.push a).fresh := by
    rw [fresh_push]
    exact Nat.lt_succ_self _
  exact (h.push a).append (hp.trans made) made

theorem Placed.clear (h : f.Placed) (n : NodeId) : (f.clear n).Placed := by
  intro m p hm
  rw [parent?_clear] at hm
  rw [fresh_clear]
  split at hm
  · cases hm
  · exact h m p hm

theorem Placed.detach (h : f.Placed) (n : NodeId) : (f.detach n).Placed := by
  intro m p hm
  rw [parent?_detach] at hm
  rw [fresh_detach]
  split at hm
  · cases hm
  · exact h m p hm

/-- Where no node has been given another parent, no node has come to be within another one. -/
theorem Placed.isWithin_of_parents (hf : f.Placed) (hle : f.fresh ≤ g.fresh)
    (parents : ∀ m < f.fresh, ∀ p, g.parent? m = some p → f.parent? m = some p) (hn : n < f.fresh)
    (hm : m < f.fresh) (h : g.isWithin n m = true) : f.isWithin n m = true := by
  obtain ⟨k, hk⟩ := (isWithin_iff (hn.trans_le hle)).1 h
  refine (isWithin_iff hn).2 ⟨k, ?_⟩
  clear h
  induction k generalizing m with
  | zero => exact hk
  | succ k ih =>
    obtain ⟨p, hp, hrest⟩ := Option.bind_eq_some_iff.1 hk
    have was := parents m hm p hp
    rw [up_succ_of_parent? was]
    exact ih (hf m p was) hrest

/-! ## Walks that end -/

/-- Below a node that is not inside of itself a walk ends before it has gone as deep as there are nodes. -/
theorem Linked.preorderWithin_succ_of_le (hf : f.Linked) (hr : r < f.fresh) (loops : ¬ f.Loops r)
    (h : f.up j n = some r) (hk : f.fresh ≤ k + j) :
    f.preorderWithin inner (k + 1) n = f.preorderWithin inner k n := by
  induction k generalizing j n with
  | zero => exact absurd (lt_fresh_of_not_loops hr loops h) (Nat.not_lt.2 (hk.trans_eq (Nat.zero_add j)))
  | succ k ih =>
    have below : (f.children n).flatMap (f.preorderWithin inner (k + 1)) =
        (f.children n).flatMap (f.preorderWithin inner k) := by
      refine List.flatMap_congr fun c hc => ?_
      exact ih ((up_succ_of_parent? (hf n c hc) j).trans h) (hk.trans_eq (Nat.succ_add_eq_add_succ k j))
    rw [preorderWithin_succ, below, ← preorderWithin_succ]

/-- A walk from a node that is not inside of itself finds no more if it may go deeper than there are nodes. -/
theorem Linked.preorderWithin_of_fresh_le (hf : f.Linked) (hr : r < f.fresh) (loops : ¬ f.Loops r)
    (hk : f.fresh ≤ k) : f.preorderWithin inner k r = f.preorder inner r := by
  induction k, hk using Nat.le_induction with
  | base => rfl
  | succ k hk ih =>
    rw [← ih]
    exact hf.preorderWithin_succ_of_le hr loops (j := 0) rfl hk

/-! ## Walks after an excision -/

/-- Only the parent of a node has the node in its list. -/
theorem Linked.filter_children (hf : f.Linked) (hp : f.parent? n ≠ some m) :
    (f.children m).filter (· != n) = f.children m := by
  refine List.filter_eq_self.2 fun c hc => bne_iff_ne.2 ?_
  rintro rfl
  exact hp (hf m c hc)

/-- Lists that are put together from parts, of which one is left out and the others are filtered. -/
theorem flatMap_filter_ne (cs : List NodeId) {parts parts' : NodeId → List NodeId} {keep : NodeId → Bool}
    (gone : (parts n).filter keep = []) (kept : ∀ c ∈ cs, c ≠ n → parts' c = (parts c).filter keep) :
    (cs.filter (· != n)).flatMap parts' = (cs.flatMap parts).filter keep := by
  induction cs with
  | nil => rfl
  | cons c cs ih =>
    have rest := ih fun c hc => kept c (List.mem_cons_of_mem _ hc)
    rw [List.flatMap_cons, List.filter_append, ← rest]
    by_cases hc : c = n
    · rw [List.filter_cons_of_neg (by simpa using hc), hc, gone, List.nil_append]
    · rw [List.filter_cons_of_pos (by simpa using hc), List.flatMap_cons, kept c List.mem_cons_self hc]

section

variable (hf : f.Linked) (hn : n < f.fresh)
  (children : ∀ m, m ≠ n → g.children m = (f.children m).filter (· != n))

include hf hn children

/-- With a node taken out of the lists of children, a walk from outside of it finds what it found before without the
node and what is below it. -/
theorem Linked.preorderWithin_eq_filter
    (kinds : ∀ m < f.fresh, f.isWithin n m = false → (g.content? m).any inner = (f.content? m).any inner)
    (hm : m < f.fresh) (outside : f.isWithin n m = false) (k : Nat) :
    g.preorderWithin inner k m = (f.preorderWithin inner k m).filter fun a => !f.isWithin n a := by
  induction k generalizing m with
  | zero => rfl
  | succ k ih =>
    have other : m ≠ n := by
      rintro rfl
      exact Bool.false_ne_true (outside.symm.trans (isWithin_self hm))
    have gone : (f.preorderWithin inner k n).filter (fun a => !f.isWithin n a) = [] := by
      refine List.filter_eq_nil_iff.2 fun a ha => ?_
      simpa using hf.isWithin_of_mem hn ha
    have below := flatMap_filter_ne (f.children m) gone fun c hc hcn =>
      ih (hf.lt_fresh hc) ((isWithin_parent? hn hcn (hf m c hc)).trans outside)
    rw [preorderWithin_succ, preorderWithin_succ, kinds m hm outside, children m other, below]
    split
    · rw [List.filter_cons_of_pos (by simpa using outside)]
    · rw [List.filter_cons_of_pos (by simpa using outside), List.filter_nil]

/-- A walk from a node below the one that was taken out finds what it found before, if the walk ends. -/
theorem Linked.preorderWithin_of_below
    (kinds : ∀ m < f.fresh, (g.content? m).any inner = (f.content? m).any inner)
    (loops : ¬ f.Loops r) (below : f.isWithin n r = true) (hr : r ≠ n) (h : f.up j m = some r) (k : Nat) :
    g.preorderWithin inner k m = f.preorderWithin inner k m := by
  obtain ⟨i, hi⟩ := (isWithin_iff hn).1 below
  -- the walk does not come to the node that was taken out, which would be inside of itself
  have apart : ∀ {j m}, f.up j m = some r → m ≠ n := by
    rintro j m hj rfl
    cases i with
    | zero => exact hr (Option.some.inj hi)
    | succ i =>
      refine loops ⟨i + j, ?_⟩
      rw [Nat.add_right_comm]
      exact up_trans hi hj
  induction k generalizing j m with
  | zero => rfl
  | succ k ih =>
    have climbs : ∀ c ∈ f.children m, f.up (j + 1) c = some r :=
      fun c hc => (up_succ_of_parent? (hf m c hc) j).trans h
    have kept : g.children m = f.children m := by
      rw [children m (apart h), List.filter_eq_self]
      exact fun c hc => bne_iff_ne.2 (apart (climbs c hc))
    have same : (f.children m).flatMap (g.preorderWithin inner k) =
        (f.children m).flatMap (f.preorderWithin inner k) :=
      List.flatMap_congr fun c hc => ih (climbs c hc)
    rw [preorderWithin_succ, preorderWithin_succ, kinds m (lt_fresh_of_up (lt_fresh_of_up hn hi) h), kept, same]

end

end InPlace.Forest

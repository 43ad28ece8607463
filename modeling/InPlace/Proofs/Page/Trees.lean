import InPlace.Proofs.Page.Climbs

/-!
# Forests in order

A forest keeps its tree twice, by the parent of each node and by the list of children of each node. It is in order if
the two agree, and if no node is inside of itself: every node is in the list of its parent, once, and in no other list
(`Intact`). Then every climb ends at a top, and every walk down ends at nodes without children, so whatever holds of a
node once it holds of its parent, or of its children, holds of all nodes (`upward_induction`, `downward_induction`).

Each change of a forest keeps it in order. A node may be moved anywhere but into itself.

Main statements: `Intact.append`, `Intact.pushUnder`, `Intact.clear`, `Intact.detach` and `Intact.preorder_eq`.
-/

namespace InPlace.Forest

variable {α : Type} {f g : Forest α} {inner : α → Bool} {k n m p r a b parent child : Nat}

/-! ## Climbs after a change -/

/-- Where no node has been given another parent there are no other climbs. -/
theorem up_of_parents (fewer : ∀ m p, g.parent? m = some p → f.parent? m = some p) (h : g.up k n = some r) :
    f.up k n = some r := by
  induction k generalizing n with
  | zero => exact h
  | succ k ih =>
    obtain ⟨p, hp, rest⟩ := Option.bind_eq_some_iff.1 h
    exact (up_succ_of_parent? (fewer n p hp) k).trans (ih rest)

theorem Loops.of_parents (fewer : ∀ m p, g.parent? m = some p → f.parent? m = some p) (h : g.Loops n) : f.Loops n := by
  obtain ⟨k, hk⟩ := h
  exact ⟨k, up_of_parents fewer hk⟩

/-- Of two climbs from one node, the longer one goes on from where the shorter one ends. -/
theorem up_sub_of_le {i j : Nat} (ha : f.up i n = some a) (hb : f.up j n = some b) (hij : i ≤ j) :
    f.up (j - i) a = some b := by
  obtain ⟨x, hx, rest⟩ := exists_up_of_le hb hij
  exact Option.some.inj (hx.symm.trans ha) ▸ rest

/-- Where only one node has been given another parent, the other climbs are those that have stopped over at it. Until
then they are the same. -/
theorem up_of_parents_ne (same : ∀ m, m ≠ child → g.parent? m = f.parent? m) (h : g.up k n = some r) :
    f.up k n = some r ∨ ∃ i < k, g.up i n = some child ∧ f.up i n = some child := by
  induction k generalizing n with
  | zero => exact .inl h
  | succ k ih =>
    by_cases hn : n = child
    · exact .inr ⟨0, k.succ_pos, congrArg some hn, congrArg some hn⟩
    · obtain ⟨p, hp, rest⟩ := Option.bind_eq_some_iff.1 h
      have was : f.parent? n = some p := (same n hn).symm.trans hp
      rcases ih rest with there | ⟨i, hi, passes, passed⟩
      · exact .inl ((up_succ_of_parent? was k).trans there)
      · exact .inr ⟨i + 1, Nat.succ_lt_succ hi, (up_succ_of_parent? hp i).trans passes,
          (up_succ_of_parent? was i).trans passed⟩

/-- A climb from a node comes only to nodes. -/
theorem Placed.lt_fresh_of_up (h : f.Placed) (hn : n < f.fresh) (hr : f.up k n = some r) : r < f.fresh := by
  induction k generalizing n with
  | zero => exact Option.some.inj hr ▸ hn
  | succ k ih =>
    obtain ⟨p, hp, rest⟩ := Option.bind_eq_some_iff.1 hr
    exact ih (h n p hp) rest

/-! ## Parents after a change -/

theorem parent?_of_push (x : α) (h : (f.push x).parent? m = some p) : f.parent? m = some p :=
  (parent?_push f x m).symm.trans h

theorem parent?_of_detach (h : (f.detach n).parent? m = some p) : f.parent? m = some p := by
  rw [parent?_detach] at h
  split at h
  · cases h
  · exact h

theorem parent?_of_clear (h : (f.clear n).parent? m = some p) : f.parent? m = some p := by
  rw [parent?_clear] at h
  split at h
  · cases h
  · exact h

theorem parent?_append_self (hc : child < f.fresh) : (f.append parent child).parent? child = some parent :=
  (parent?_append f (isSome_content?_iff.2 hc) child).trans (if_pos rfl)

theorem parent?_append_of_ne (hc : child < f.fresh) (hm : m ≠ child) :
    (f.append parent child).parent? m = f.parent? m :=
  (parent?_append f (isSome_content?_iff.2 hc) m).trans (if_neg hm)

/-! ## Nodes above the same node -/

theorem exists_up_of_isWithin (within : f.isWithin n m = true) : ∃ k, f.up k m = some n := by
  obtain ⟨k, -, hk⟩ := mem_ancestorsWithin_iff.1 (List.contains_iff_mem.1 within)
  exact ⟨k, hk⟩

theorem isWithin_trans (hr : r < f.fresh) (hn : f.isWithin r n = true) (hm : f.isWithin n m = true) :
    f.isWithin r m = true := by
  obtain ⟨i, hi⟩ := exists_up_of_isWithin hn
  obtain ⟨j, hj⟩ := exists_up_of_isWithin hm
  exact (isWithin_iff hr).2 ⟨j + i, up_trans hj hi⟩

/-- Of two nodes above the same one, one is within the other. -/
theorem isWithin_total (ha : a < f.fresh) (hb : b < f.fresh) (hn : f.isWithin a n = true)
    (hn' : f.isWithin b n = true) : f.isWithin a b = true ∨ f.isWithin b a = true := by
  obtain ⟨i, hi⟩ := exists_up_of_isWithin hn
  obtain ⟨j, hj⟩ := exists_up_of_isWithin hn'
  rcases Nat.le_total i j with hij | hji
  · exact .inr ((isWithin_iff hb).2 ⟨j - i, up_sub_of_le hi hj hij⟩)
  · exact .inl ((isWithin_iff ha).2 ⟨i - j, up_sub_of_le hj hi hji⟩)

/-- What is above a node and is another one is above the node's siblings. -/
theorem isWithin_sibling (hr : r < f.fresh) (other : a ≠ r) (ha : f.parent? a = some p) (hb : f.parent? b = some p)
    (within : f.isWithin r a = true) : f.isWithin r b = true := by
  by_cases hbr : b = r
  · rw [hbr]
    exact isWithin_self hr
  · rw [isWithin_parent? hr hbr hb, ← isWithin_parent? hr other ha]
    exact within

/-! ## Forests in order -/

/-- Every parent is a node, a node is in the list of its parent, once, and in no other, and no node is inside of
itself. -/
structure Intact (f : Forest α) : Prop where
  placed : f.Placed
  linked : f.Linked
  listed : ∀ n p, f.parent? n = some p → n ∈ f.children p
  once : ∀ p, (f.children p).Nodup
  loops : ∀ n, ¬ f.Loops n

namespace Intact

/-- A forest is in order if its links are those of one that is. -/
theorem of_eq (h : f.Intact) (hfresh : g.fresh = f.fresh) (hp : ∀ n, g.parent? n = f.parent? n)
    (hc : ∀ n, g.children n = f.children n) : g.Intact where
  placed := h.placed.of_eq hfresh hp
  linked := h.linked.of_eq hp hc
  listed n p hn := by
    rw [hc]
    exact h.listed n p ((hp n).symm.trans hn)
  once p := by
    rw [hc]
    exact h.once p
  loops n hn := h.loops n (hn.of_parents fun m _ hm => (hp m).symm.trans hm)

/-- A new node leaves a forest in order. -/
theorem push (h : f.Intact) (a : α) : (f.push a).Intact where
  placed := h.placed.push a
  linked := h.linked.push a
  listed n p hn := by
    rw [children_push]
    exact h.listed n p (parent?_of_push a hn)
  once p := by
    rw [children_push]
    exact h.once p
  loops n hn := h.loops n (hn.of_parents fun _ _ => parent?_of_push a)

/-- The forest without nodes. -/
theorem empty : ({} : Forest α).Intact where
  placed n p hn := by simp [parent?, cell?] at hn
  linked p n hn := by simp [children, cell?] at hn
  listed n p hn := by simp [parent?, cell?] at hn
  once p := by simp [children, cell?]
  loops n := not_loops_of_parent? (by simp [parent?, cell?])

/-- A node that is detached leaves a forest in order. -/
theorem detach (h : f.Intact) (n : NodeId) : (f.detach n).Intact where
  placed := h.placed.detach n
  linked := h.linked.detach n
  listed m p hm := by
    rw [parent?_detach] at hm
    split at hm
    · cases hm
    · rename_i other
      rw [children_detach]
      split
      · exact List.mem_filter.2 ⟨h.listed m p hm, bne_iff_ne.2 other⟩
      · exact h.listed m p hm
  once p := by
    rw [children_detach]
    split
    · exact (h.once p).filter _
    · exact h.once p
  loops m hm := h.loops m (hm.of_parents fun _ _ => parent?_of_detach)

/-- A node that loses its children leaves a forest in order. -/
theorem clear (h : f.Intact) (n : NodeId) : (f.clear n).Intact where
  placed := h.placed.clear n
  linked := h.linked.clear n
  listed m p hm := by
    rw [parent?_clear] at hm
    split at hm
    · cases hm
    · rename_i outside
      rw [children_clear, if_neg]
      · exact h.listed m p hm
      · rintro rfl
        exact outside (h.listed m p hm)
  once p := by
    rw [children_clear]
    split
    · exact List.nodup_nil
    · exact h.once p
  loops m hm := h.loops m (hm.of_parents fun _ _ => parent?_of_clear)

/-- A node may be moved under any node that is not inside of it. -/
theorem append (h : f.Intact) (hp : parent < f.fresh) (hc : child < f.fresh)
    (outside : f.isWithin child parent = false) : (f.append parent child).Intact := by
  have others : ∀ m, m ≠ child → (f.append parent child).parent? m = f.parent? m :=
    fun m hm => parent?_append_of_ne hc hm
  have apart : ∀ k, f.up k parent ≠ some child :=
    fun k hk => Bool.false_ne_true (outside.symm.trans ((isWithin_iff hc).2 ⟨k, hk⟩))
  refine ⟨h.placed.append hp hc, h.linked.append (isSome_content?_iff.2 hc), fun n p hn => ?_, fun p => ?_, fun n => ?_⟩
  · rw [children_append f (isSome_content?_iff.2 hp), List.mem_append]
    by_cases hnc : n = child
    · rw [hnc, parent?_append_self hc] at hn
      rw [if_pos (Option.some.inj hn).symm]
      exact .inr (List.mem_singleton.2 hnc)
    · refine .inl ((h.detach child).listed n p ?_)
      rw [parent?_detach, if_neg hnc]
      exact (others n hnc).symm.trans hn
  · rw [children_append f (isSome_content?_iff.2 hp)]
    refine List.nodup_append'.2 ⟨(h.detach child).once p, ?_, ?_⟩
    · split
      · exact List.nodup_singleton child
      · exact List.nodup_nil
    · intro m hm hin
      split at hin
      · rw [List.mem_singleton.1 hin] at hm
        exact not_mem_children_detach h.linked child p hm
      · exact List.not_mem_nil hin
  · rintro ⟨k, hk⟩
    rcases up_of_parents_ne others hk with there | ⟨j, hj, passes, -⟩
    · exact h.loops n ⟨k, there⟩
    · have around := up_trans (up_sub_of_le passes hk hj.le) passes
      rw [Nat.sub_add_cancel hj.le, up_succ_of_parent? (parent?_append_self hc)] at around
      rcases up_of_parents_ne others around with there | ⟨i, -, -, passed⟩
      · exact apart k there
      · exact apart i passed

/-- A new node may be put under any node. -/
theorem pushUnder (h : f.Intact) (hp : parent < f.fresh) (a : α) : (f.pushUnder parent a).Intact := by
  have made : f.fresh < (f.push a).fresh := by
    rw [fresh_push]
    exact Nat.lt_succ_self _
  have above : parent < (f.push a).fresh := hp.trans made
  refine (h.push a).append above made (eq_false_of_ne_true fun within => ?_)
  obtain ⟨k, hk⟩ := (isWithin_iff made).1 within
  have before := up_of_parents (fun _ _ => parent?_of_push a) hk
  exact Nat.lt_irrefl _ (h.placed.lt_fresh_of_up hp before)

/-- No climb leads from the parent of a node back to the node. -/
theorem up_ne_of_parent? (h : f.Intact) (hp : f.parent? n = some p) (k : Nat) : f.up k p ≠ some n :=
  fun hk => h.loops n ⟨k, (up_succ_of_parent? hp k).trans hk⟩

/-! ## Inductions -/

/-- No node has as many ancestors as there are nodes. -/
theorem up_fresh (h : f.Intact) (hn : n < f.fresh) : f.up f.fresh n = none := by
  refine Option.eq_none_iff_forall_ne_some.2 fun r hr => ?_
  exact Nat.lt_irrefl _ (lt_fresh_of_not_loops (h.placed.lt_fresh_of_up hn hr) (h.loops r) hr)

/-- What holds of a node once it holds of its parent holds of every node. -/
theorem upward_induction {P : NodeId → Prop} (h : f.Intact)
    (step : ∀ n < f.fresh, (∀ p, f.parent? n = some p → P p) → P n) (hn : n < f.fresh) : P n := by
  have climb : ∀ k n, n < f.fresh → f.up k n = none → P n := by
    intro k
    induction k with
    | zero => exact fun n _ hk => nomatch hk
    | succ k ih =>
      intro n hn hk
      refine step n hn fun p hp => ih p (h.placed n p hp) ?_
      rw [← up_succ_of_parent? hp k]
      exact hk
  exact climb f.fresh n hn (h.up_fresh hn)

/-- What holds of a node once it holds of its children holds of every node. -/
theorem downward_induction {P : NodeId → Prop} (h : f.Intact)
    (step : ∀ n < f.fresh, (∀ c ∈ f.children n, P c) → P n) (hn : n < f.fresh) : P n := by
  -- by induction on the steps that are left once the walk has come down some of them
  have descend : ∀ k j m, f.fresh ≤ k + j → f.up j m = some n → P m := by
    intro k
    induction k with
    | zero =>
      intro j m hk hj
      exact absurd (lt_fresh_of_not_loops hn (h.loops n) hj) (Nat.not_lt.2 (hk.trans_eq (Nat.zero_add j)))
    | succ k ih =>
      intro j m hk hj
      refine step m (lt_fresh_of_up hn hj) fun c hc => ih (j + 1) c (hk.trans_eq (Nat.succ_add_eq_add_succ k j)) ?_
      exact (up_succ_of_parent? (h.linked m c hc) j).trans hj
  exact descend f.fresh 0 n (Nat.le_refl _) rfl

/-! ## Walks -/

theorem ancestorsWithin_succ (hk : f.up k n = none) : f.ancestorsWithin (k + 1) n = f.ancestorsWithin k n := by
  induction k generalizing n with
  | zero => cases hk
  | succ k ih =>
    cases hp : f.parent? n with
    | none => rw [ancestorsWithin_of_free _ hp, ancestorsWithin_of_free _ hp]
    | some p =>
      rw [up_succ_of_parent? hp] at hk
      rw [ancestorsWithin_of_parent? _ hp, ancestorsWithin_of_parent? _ hp, ih hk]

/-- The ancestors of a node with a parent are the node and the ancestors of the parent. -/
theorem ancestors_of_parent? (h : f.Intact) (hp : f.parent? n = some p) : f.ancestors n = n :: f.ancestors p := by
  obtain ⟨k, hk⟩ := Nat.exists_eq_succ_of_ne_zero (Nat.ne_zero_of_lt (lt_fresh_of_parent? hp))
  have above : f.up k p = none := by
    rw [← up_succ_of_parent? hp k, ← Nat.succ_eq_add_one, ← hk]
    exact h.up_fresh (lt_fresh_of_parent? hp)
  have rest := ancestorsWithin_succ above
  show f.ancestorsWithin f.fresh n = n :: f.ancestorsWithin f.fresh p
  rw [hk, ancestorsWithin_of_parent? k hp, rest]

end Intact

theorem ancestors_of_parent?_eq_none (hn : n < f.fresh) (hp : f.parent? n = none) : f.ancestors n = [n] := by
  obtain ⟨k, hk⟩ := Nat.exists_eq_succ_of_ne_zero (Nat.ne_zero_of_lt hn)
  show f.ancestorsWithin f.fresh n = [n]
  rw [hk, ancestorsWithin_of_free k hp]

namespace Intact

/-- A walk down goes through the children. -/
theorem preorder_eq (h : f.Intact) (inner : α → Bool) (hn : n < f.fresh) : f.preorder inner n =
    if (f.content? n).any inner then n :: (f.children n).flatMap (f.preorder inner) else [n] :=
  (h.linked.preorderWithin_of_fresh_le hn (h.loops n) (Nat.le_succ _)).symm

/-- Two nodes are not within each other. -/
theorem isWithin_antisymm (h : f.Intact) (within : f.isWithin n m = true) (within' : f.isWithin m n = true) : n = m := by
  obtain ⟨i, hi⟩ := exists_up_of_isWithin within
  obtain ⟨j, hj⟩ := exists_up_of_isWithin within'
  cases i with
  | zero => exact (Option.some.inj hi).symm
  | succ i => exact absurd ⟨i + j, Nat.add_right_comm i j 1 ▸ up_trans hi hj⟩ (h.loops m)

/-- Siblings have nothing in common below them. -/
theorem eq_of_siblings (h : f.Intact) (ha : f.parent? a = some p) (hb : f.parent? b = some p)
    (hm : f.isWithin a m = true) (hm' : f.isWithin b m = true) : a = b := by
  -- one of the two is within the other, and nothing comes back to a node from its parent
  have same : ∀ {a b}, f.parent? a = some p → f.parent? b = some p → f.isWithin a b = true → a = b := by
    intro a b ha hb within
    obtain ⟨k, hk⟩ := exists_up_of_isWithin within
    cases k with
    | zero => exact (Option.some.inj hk).symm
    | succ k => exact absurd ((up_succ_of_parent? hb k).symm.trans hk) (h.up_ne_of_parent? ha k)
  rcases isWithin_total (lt_fresh_of_parent? ha) (lt_fresh_of_parent? hb) hm hm' with within | within
  · exact same ha hb within
  · exact (same hb ha within).symm

end Intact

end InPlace.Forest

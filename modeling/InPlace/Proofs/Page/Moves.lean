import InPlace.Proofs.Page.Trees

/-!
# Where nodes are after a change

A node that is moved takes all that is below it along: what was within it is now within whatever its new parent is
within, and is no longer within what was above it (`Intact.isWithin_append_of_below`). What was not below it stays
where it is. The children of a node that is cleared leave it with all that is below them (`Intact.isWithin_clear`).

Main statements: `Intact.isWithin_append_of_below`, `Intact.isWithin_append` and `Intact.isWithin_clear`.
-/

namespace InPlace.Forest

variable {α : Type} {f g : Forest α} {k n m p r parent child : Nat}

/-- Where the nodes have the parents that they had, they are within what they were within. -/
theorem Placed.isWithin_congr (h : f.Placed) (hle : f.fresh ≤ g.fresh)
    (same : ∀ m < f.fresh, g.parent? m = f.parent? m) (hr : r < f.fresh) (hm : m < f.fresh) :
    g.isWithin r m = f.isWithin r m := by
  have climbs : ∀ k m, m < f.fresh → g.up k m = f.up k m := by
    intro k
    induction k with
    | zero => exact fun _ _ => rfl
    | succ k ih =>
      intro m hm
      rw [up, up, same m hm]
      cases hp : f.parent? m with
      | none => rfl
      | some p => exact ih p (h m p hp)
  rw [Bool.eq_iff_iff, isWithin_iff (hr.trans_le hle), isWithin_iff hr]
  exact exists_congr fun k => by rw [climbs k m hm]

namespace Intact

variable (h : f.Intact)

include h

/-- A climb to a node has one length. -/
theorem up_inj {i j : Nat} (hi : f.up i n = some r) (hj : f.up j n = some r) : i = j := by
  have apart : ∀ {i j}, f.up i n = some r → f.up j n = some r → ¬ i < j := by
    intro i j hi hj hij
    refine h.loops r ⟨j - i - 1, ?_⟩
    rw [Nat.sub_add_cancel (Nat.sub_pos_of_lt hij)]
    exact up_sub_of_le hi hj hij.le
  exact Nat.le_antisymm (Nat.le_of_not_lt (apart hj hi)) (Nat.le_of_not_lt (apart hi hj))

/-- What is below a node that is moved is within what its new parent is within, and not within what was above it. -/
theorem isWithin_append_of_below (hc : child < f.fresh) (outside : f.isWithin child parent = false)
    (hr : r < f.fresh) (other : child ≠ r) (above : f.isWithin r child = true)
    (below : f.isWithin child m = true) : (f.append parent child).isWithin r m = f.isWithin r parent := by
  have others : ∀ m, m ≠ child → (f.append parent child).parent? m = f.parent? m :=
    fun m hm => parent?_append_of_ne hc hm
  have hangs : (f.append parent child).parent? child = some parent := parent?_append_self hc
  have size := fresh_append f parent child
  have stays : ∀ k, (f.append parent child).up k parent = some r ↔ f.up k parent = some r := by
    refine fun k => ⟨fun hk => ?_, fun hk => ?_⟩
    · refine (up_of_parents_ne others hk).resolve_right ?_
      rintro ⟨i, -, -, passed⟩
      exact Bool.false_ne_true (outside.symm.trans ((isWithin_iff hc).2 ⟨i, passed⟩))
    · refine (up_of_parents_ne (fun m hm => (others m hm).symm) hk).resolve_right ?_
      rintro ⟨i, -, passed, -⟩
      exact Bool.false_ne_true (outside.symm.trans ((isWithin_iff hc).2 ⟨i, passed⟩))
  have carried : ∃ i, (f.append parent child).up i m = some child := by
    obtain ⟨i, hi⟩ := exists_up_of_isWithin below
    rcases up_of_parents_ne (fun m hm => (others m hm).symm) hi with here | ⟨j, -, -, passes⟩
    · exact ⟨i, here⟩
    · exact ⟨j, passes⟩
  obtain ⟨i, hi⟩ := carried
  rw [Bool.eq_iff_iff, isWithin_iff (size ▸ hr), isWithin_iff hr]
  constructor
  · rintro ⟨k, hk⟩
    have late : i < k := by
      refine Nat.lt_of_not_le fun hki => ?_
      -- then the outer node would have been below the one that was moved
      have inside : f.isWithin child r = true := by
        rcases up_of_parents_ne others (up_sub_of_le hk hi hki) with there | ⟨j, -, -, passed⟩
        · exact (isWithin_iff hc).2 ⟨_, there⟩
        · exact (isWithin_iff hc).2 ⟨j, passed⟩
      exact other (h.isWithin_antisymm inside above)
    have rest := up_sub_of_le hi hk late.le
    obtain ⟨d, hd⟩ := Nat.exists_eq_add_of_lt late
    have steps : k - i = d + 1 := by omega
    rw [steps, up_succ_of_parent? hangs] at rest
    exact ⟨d, (stays d).1 rest⟩
  · rintro ⟨k, hk⟩
    refine ⟨i + (k + 1), up_trans hi ?_⟩
    rw [up_succ_of_parent? hangs]
    exact (stays k).2 hk

/-- What is within a node stays within it when another node is moved, unless that one leads from there to it. -/
theorem isWithin_append (hc : child < f.fresh) (hr : r < f.fresh) (within : f.isWithin r m = true)
    (apart : f.isWithin child m = true → f.isWithin r child = true → child = r) :
    (f.append parent child).isWithin r m = true := by
  obtain ⟨k, hk⟩ := exists_up_of_isWithin within
  refine (isWithin_iff ((fresh_append f parent child).symm ▸ hr)).2 ⟨k, ?_⟩
  refine (up_of_parents_ne (fun m hm => (parent?_append_of_ne hc hm).symm) hk).resolve_right ?_
  -- a climb that stops over at the node that is moved shows that it is within the outer one
  rintro ⟨i, hi, passed, -⟩
  have above : f.isWithin r child = true := (isWithin_iff hr).2 ⟨k - i, up_sub_of_le passed hk hi.le⟩
  have same := apart ((isWithin_iff hc).2 ⟨i, passed⟩) above
  exact absurd (h.up_inj hk (same ▸ passed)) (Nat.ne_of_gt hi)

/-- When a node is cleared all that is below it leaves whatever the node is within, and nothing else moves. -/
theorem isWithin_clear (hn : n < f.fresh) (hr : r < f.fresh) : (f.clear n).isWithin r m = true ↔
    f.isWithin r m = true ∧ (f.isWithin n m = true → f.isWithin r n = true → m = n) := by
  rw [isWithin_iff ((fresh_clear f n).symm ▸ hr)]
  constructor
  · rintro ⟨k, hk⟩
    have was := up_of_parents (fun _ _ => parent?_of_clear) hk
    refine ⟨(isWithin_iff hr).2 ⟨k, was⟩, fun below above => ?_⟩
    obtain ⟨j, hj⟩ := exists_up_of_isWithin below
    obtain ⟨i, hi⟩ := exists_up_of_isWithin above
    cases j with
    | zero => exact Option.some.inj hj
    | succ j =>
      have length : k = j + 1 + i := h.up_inj was (up_trans hj hi)
      obtain ⟨c, hc, rest⟩ := exists_up_of_le (i := j) hk (by omega)
      have child : f.parent? c = some n := by
        rw [up_add, up_of_parents (fun _ _ => parent?_of_clear) hc, Option.bind_some] at hj
        obtain ⟨p, hp, hpn⟩ := Option.bind_eq_some_iff.1 hj
        rw [hp, Option.some.inj hpn]
      have steps : k - j = i + 1 := by omega
      rw [steps, up, parent?_clear, if_pos (h.listed c n child)] at rest
      cases rest
  · rintro ⟨within, apart⟩
    obtain ⟨k, hk⟩ := exists_up_of_isWithin within
    refine ⟨k, ?_⟩
    clear within
    induction k generalizing m with
    | zero => exact hk
    | succ k ih =>
      obtain ⟨p, hp, rest⟩ := Option.bind_eq_some_iff.1 hk
      have reaches : ∀ {i}, f.up i p = some n → f.isWithin n m = true :=
        fun {i} hi => (isWithin_iff hn).2 ⟨i + 1, (up_succ_of_parent? hp i).trans hi⟩
      have kept : m ∉ f.children n := by
        intro hm
        obtain rfl : n = p := Option.some.inj ((h.linked n m hm).symm.trans hp)
        obtain rfl := apart (reaches (i := 0) rfl) ((isWithin_iff hr).2 ⟨k, rest⟩)
        exact h.up_ne_of_parent? hp 0 rfl
      rw [up_succ_of_parent? ((parent?_clear f n m).trans ((if_neg kept).trans hp))]
      refine ih (fun below above => ?_) rest
      obtain ⟨i, hi⟩ := exists_up_of_isWithin below
      obtain rfl := apart (reaches hi) above
      exact absurd hi (h.up_ne_of_parent? hp i)

end Intact

end InPlace.Forest

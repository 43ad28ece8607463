import InPlace.Page.Forest

/-!
# Changes of a forest

What becomes of the contents, the parents and the lists of children when a forest is changed. A change of
contents leaves every place alone (`parent?_modifyContent`, `children_modifyContent`), a change of places
leaves every content alone (`content?_append`, `content?_detach`, `content?_clear`), and two forests with
the same lists of children are walked alike (`preorderWithin_congr`).
-/

namespace InPlace.Forest

variable {α β : Type}

/-! ## Changes of a node -/

/-- A change that keeps what is read of a node keeps what is read of every node. -/
theorem bind_cell?_modify (f : Forest α) (n m : NodeId) {g : Cell α → Cell α} {read : Cell α → Option β}
    (h : ∀ c, read (g c) = read c) : ((f.modify n g).cell? m).bind read = (f.cell? m).bind read := by
  rw [cell?_modify]
  split
  · rw [Option.bind_map]
    exact Option.bind_congr fun c _ => h c
  · rfl

theorem map_cell?_modify (f : Forest α) (n m : NodeId) {g : Cell α → Cell α} {read : Cell α → β}
    (h : ∀ c, read (g c) = read c) : ((f.modify n g).cell? m).map read = (f.cell? m).map read := by
  rw [Option.map_eq_bind, Option.map_eq_bind]
  exact bind_cell?_modify f n m fun c => congrArg some (h c)

/-- A change that keeps what the node is keeps what every node is. -/
theorem content?_modify_of_content (f : Forest α) (n m : NodeId) {g : Cell α → Cell α}
    (h : ∀ c, (g c).content = c.content) : (f.modify n g).content? m = f.content? m :=
  map_cell?_modify f n m h

/-- A change that keeps the list of a node keeps the list of every node. -/
theorem children_modify_of_children (f : Forest α) (n m : NodeId) {g : Cell α → Cell α}
    (h : ∀ c, (g c).children = c.children) : (f.modify n g).children m = f.children m :=
  congrArg (·.getD []) (map_cell?_modify f n m h)

/-- A change that keeps the parent of a node keeps the parent of every node. -/
theorem parent?_modify_of_parent (f : Forest α) (n m : NodeId) {g : Cell α → Cell α}
    (h : ∀ c, (g c).parent = c.parent) : (f.modify n g).parent? m = f.parent? m :=
  bind_cell?_modify f n m h

theorem fresh_modify (f : Forest α) (n : NodeId) (g : Cell α → Cell α) :
    (f.modify n g).fresh = f.fresh := by
  simp [fresh, modify]

/-! ## Changes of contents -/

/-- What a node holds changes at that node alone. -/
theorem content?_modifyContent (f : Forest α) (n m : NodeId) (g : α → α) :
    (f.modifyContent n g).content? m =
      if n = m then (f.content? m).map g else f.content? m := by
  unfold content? modifyContent
  rw [cell?_modify]
  split
  · rw [Option.map_map, Option.map_map]
    rfl
  · rfl

/-- What a change does to what is read of a content. -/
theorem bind_content?_modifyContent_of_map (f : Forest α) (n m : NodeId) {g : α → α} {read : α → Option β} {change : β → β}
    (h : ∀ a, read (g a) = (read a).map change) : ((f.modifyContent n g).content? m).bind read =
      if n = m then ((f.content? m).bind read).map change else (f.content? m).bind read := by
  rw [content?_modifyContent]
  split
  · rw [Option.bind_map, Option.map_bind]
    exact Option.bind_congr fun a _ => h a
  · rfl

/-- A change that keeps what is read of a content keeps what is read of every content. -/
theorem bind_content?_modifyContent (f : Forest α) (n m : NodeId) {g : α → α} {read : α → Option β}
    (h : ∀ a, read (g a) = read a) :
    ((f.modifyContent n g).content? m).bind read = (f.content? m).bind read := by
  rw [content?, content?, Option.bind_map, Option.bind_map]
  exact bind_cell?_modify f n m fun c => h c.content

theorem parent?_modifyContent (f : Forest α) (n m : NodeId) (g : α → α) :
    (f.modifyContent n g).parent? m = f.parent? m :=
  parent?_modify_of_parent f n m fun _ => rfl

theorem children_modifyContent (f : Forest α) (n m : NodeId) (g : α → α) :
    (f.modifyContent n g).children m = f.children m :=
  children_modify_of_children f n m fun _ => rfl

theorem fresh_modifyContent (f : Forest α) (n : NodeId) (g : α → α) :
    (f.modifyContent n g).fresh = f.fresh :=
  fresh_modify f n _

/-! ## Changes of places -/

theorem content?_detach (f : Forest α) (n m : NodeId) :
    (f.detach n).content? m = f.content? m := by
  unfold detach
  split
  · rfl
  · simp only [content?_modify_of_content, implies_true]

theorem content?_append (f : Forest α) (parent child m : NodeId) :
    (f.append parent child).content? m = f.content? m := by
  unfold append
  simp only [content?_modify_of_content, implies_true, content?_detach]

/-- A fold of changes that each keep a reading keeps the reading. -/
theorem foldl_reading {β γ δ : Type} {r : β → δ} {g : β → γ → β} (h : ∀ b c, r (g b c) = r b)
    (cs : List γ) (b : β) : r (cs.foldl g b) = r b := by
  induction cs generalizing b with
  | nil => rfl
  | cons c cs ih => rw [List.foldl_cons, ih, h]

theorem content?_clear (f : Forest α) (n m : NodeId) : (f.clear n).content? m = f.content? m := by
  unfold clear
  rw [content?_modify_of_content]
  · -- the children lose their parent one after the other, and no content changes on the way
    refine foldl_reading (r := fun f : Forest α => f.content? m) ?_ _ f
    intro f c
    exact content?_modify_of_content f c m fun _ => rfl
  · exact fun _ => rfl

theorem fresh_clear (f : Forest α) (n : NodeId) : (f.clear n).fresh = f.fresh := by
  unfold clear
  rw [fresh_modify]
  exact foldl_reading (r := fresh) (fun f c => fresh_modify f c _) _ f

/-- A cleared node has no children left. -/
theorem children_clear_self (f : Forest α) (n : NodeId) : (f.clear n).children n = [] := by
  unfold clear children
  rw [cell?_modify, if_pos rfl]
  generalize (List.foldl _ f _).cell? n = cell
  cases cell <;> rfl

/-- A cleared node has no children left, the others keep theirs. -/
theorem children_clear (f : Forest α) (n m : NodeId) :
    (f.clear n).children m = if m = n then [] else f.children m := by
  by_cases hm : m = n
  · subst hm
    rw [if_pos rfl, children_clear_self]
  · have orphaned : ∀ (f : Forest α) (c : NodeId),
        (f.modify c fun cell => { cell with parent := none }).children m = f.children m :=
      fun f c => children_modify_of_children f c m fun _ => rfl
    rw [if_neg hm, ← foldl_reading (r := fun f : Forest α => f.children m) orphaned (f.children n) f]
    unfold clear children
    rw [cell?_modify, if_neg (Ne.symm hm)]

/-- The children of a cleared node lose their parent, the other nodes keep theirs. -/
theorem parent?_clear (f : Forest α) (n m : NodeId) :
    (f.clear n).parent? m = if m ∈ f.children n then none else f.parent? m := by
  have orphaned : ∀ (cs : List NodeId) (f : Forest α),
      (cs.foldl (fun f c => f.modify c fun cell => { cell with parent := none }) f).parent? m =
        if m ∈ cs then none else f.parent? m := by
    intro cs
    induction cs with
    | nil => exact fun f => (if_neg List.not_mem_nil).symm
    | cons c cs ih =>
      intro f
      have first : (f.modify c fun cell => { cell with parent := none }).parent? m =
          if m = c then none else f.parent? m := by
        unfold parent?
        rw [cell?_modify]
        by_cases hc : c = m
        · rw [if_pos hc, if_pos hc.symm]
          cases f.cell? m <;> rfl
        · rw [if_neg hc, if_neg (Ne.symm hc)]
      rw [List.foldl_cons, ih, first]
      by_cases hm : m ∈ cs <;> by_cases hc : m = c <;> simp [hm, hc]
  unfold clear
  rw [parent?_modify_of_parent, orphaned]
  exact fun _ => rfl

/-- Only nodes that were made have a parent. -/
theorem lt_fresh_of_parent? {f : Forest α} {n p : NodeId} (h : f.parent? n = some p) : n < f.fresh := by
  apply Nat.lt_of_not_le
  intro hle
  have nothing : f.cell? n = none := Array.getElem?_eq_none hle
  rw [parent?, nothing] at h
  cases h

/-- Only nodes that were made have a content. -/
theorem content?_eq_none_of_fresh_le {f : Forest α} {n : NodeId} (h : f.fresh ≤ n) :
    f.content? n = none := by
  have nothing : f.cell? n = none := Array.getElem?_eq_none h
  simp [content?, nothing]

theorem lt_fresh_of_content? {f : Forest α} {n : NodeId} {a : α} (h : f.content? n = some a) :
    n < f.fresh := by
  apply Nat.lt_of_not_le
  intro hle
  rw [content?_eq_none_of_fresh_le hle] at h
  simp at h

/-- A node holds something exactly if it has been made. -/
theorem isSome_content?_iff {f : Forest α} {n : NodeId} : (f.content? n).isSome ↔ n < f.fresh := by
  constructor
  · intro h
    obtain ⟨a, ha⟩ := Option.isSome_iff_exists.1 h
    exact lt_fresh_of_content? ha
  · intro h
    have cell : f.cell? n = some f.cells[n] := Array.getElem?_eq_getElem h
    rw [content?, cell]
    rfl

theorem content?_push (f : Forest α) (a : α) (m : NodeId) :
    (f.push a).content? m = if m = f.fresh then some a else f.content? m := by
  unfold content?
  rw [cell?_push]
  split <;> rfl

theorem content?_pushUnder (f : Forest α) (parent : NodeId) (a : α) (m : NodeId) :
    (f.pushUnder parent a).content? m = if m = f.fresh then some a else f.content? m := by
  unfold pushUnder
  rw [content?_append, content?_push]

/-- A new node hangs nowhere yet, so there is no list to take it out of. -/
theorem detach_fresh (f : Forest α) (a : α) : (f.push a).detach f.fresh = f.push a := by
  have free : (f.push a).parent? f.fresh = none := by
    simp [parent?, cell?_push]
  unfold detach
  rw [free]

/-- A new node comes after the children that its parent has. -/
theorem children_pushUnder_self {f : Forest α} {parent : NodeId} (a : α)
    (h : parent < f.fresh) : (f.pushUnder parent a).children parent = f.children parent ++ [f.fresh] := by
  have hne : parent ≠ f.fresh := Nat.ne_of_lt h
  obtain ⟨c, hc⟩ : ∃ c, f.cell? parent = some c := ⟨f.cells[parent], Array.getElem?_eq_getElem h⟩
  unfold pushUnder append
  rw [detach_fresh]
  unfold children
  rw [cell?_modify, if_pos rfl, cell?_modify, if_neg (Ne.symm hne), cell?_push, if_neg hne, hc]
  rfl

/-- A new node leaves the lists of the nodes alone that it is not put under. -/
theorem children_pushUnder_of_ne (f : Forest α) {parent m : NodeId} (a : α) (h : m ≠ parent) :
    (f.pushUnder parent a).children m = f.children m := by
  unfold pushUnder append
  rw [detach_fresh]
  have hung := children_modify_of_children (f.push a) f.fresh m
    (g := fun c => { c with parent := some parent }) fun _ => rfl
  have made : (f.push a).children m = f.children m := by
    unfold children
    rw [cell?_push]
    split
    · rename_i hm
      subst hm
      rw [show f.cell? f.fresh = none from Array.getElem?_eq_none (Nat.le_refl _)]
      rfl
    · rfl
  rw [← made, ← hung]
  unfold children
  rw [cell?_modify, if_neg (Ne.symm h)]

/-- A new node leaves the nodes alone that there were, where they are. -/
theorem parent?_pushUnder_of_lt {f : Forest α} {m : NodeId} (parent : NodeId) (a : α) (h : m < f.fresh) :
    (f.pushUnder parent a).parent? m = f.parent? m := by
  have other : f.fresh ≠ m := Ne.symm (Nat.ne_of_lt h)
  unfold pushUnder append
  rw [detach_fresh, parent?_modify_of_parent]
  · unfold parent?
    rw [cell?_modify, if_neg other, cell?_push, if_neg (Ne.symm other)]
  · exact fun _ => rfl

theorem fresh_pushUnder (f : Forest α) (parent : NodeId) (a : α) :
    (f.pushUnder parent a).fresh = f.fresh + 1 := by
  unfold pushUnder append
  rw [detach_fresh, fresh_modify, fresh_modify]
  exact Array.size_push _

/-- A node that is taken out of a list of children keeps its own, itself apart. -/
theorem children_detach_self (f : Forest α) (n : NodeId) :
    (f.detach n).children n = f.children n ∨
      (f.detach n).children n = (f.children n).filter (· != n) := by
  unfold detach
  split
  · exact .inl rfl
  · rename_i p _
    unfold children
    rw [cell?_modify, if_pos rfl, cell?_modify]
    -- only a node that is its own parent is in its own list
    by_cases hp : p = n
    · refine .inr ?_
      rw [if_pos hp]
      cases f.cell? n <;> rfl
    · refine .inl ?_
      rw [if_neg hp]
      cases f.cell? n <;> rfl

/-! ## Walks -/

/-- Forests with the same inner nodes and the same lists of children are walked alike. -/
theorem preorderWithin_congr {f g : Forest α} {inner : α → Bool}
    (hi : ∀ n, (g.content? n).any inner = (f.content? n).any inner)
    (hc : ∀ n, g.children n = f.children n) (k : Nat) (n : NodeId) :
    g.preorderWithin inner k n = f.preorderWithin inner k n := by
  induction k generalizing n with
  | zero => rfl
  | succ k ih =>
    -- the recursion goes through a map over the children, so it is used as an equality of functions
    have hk : g.preorderWithin inner k = f.preorderWithin inner k := funext ih
    simp only [preorderWithin, hi, hc, hk]

theorem ancestorsWithin_of_parent? {f : Forest α} {n p : NodeId} (k : Nat) (hp : f.parent? n = some p) :
    f.ancestorsWithin (k + 1) n = n :: f.ancestorsWithin k p := by
  rw [ancestorsWithin, hp]

theorem ancestorsWithin_of_free {f : Forest α} {n : NodeId} (k : Nat) (hp : f.parent? n = none) :
    f.ancestorsWithin (k + 1) n = [n] := by
  rw [ancestorsWithin, hp]

theorem mem_ancestorsWithin_self (f : Forest α) (k : Nat) (n : NodeId) : n ∈ f.ancestorsWithin (k + 1) n := by
  cases hp : f.parent? n with
  | none =>
    rw [ancestorsWithin_of_free k hp]
    exact List.mem_cons_self
  | some p =>
    rw [ancestorsWithin_of_parent? k hp]
    exact List.mem_cons_self

/-- What holds of a node and passes on to parents holds of everything that a walk up from the node meets. -/
theorem of_mem_ancestorsWithin {f : Forest α} {P : NodeId → Prop} {k : Nat} {n m : NodeId}
    (up : ∀ n p, P n → f.parent? n = some p → P p) (hn : P n) (hm : m ∈ f.ancestorsWithin k n) : P m := by
  induction k generalizing n with
  | zero => cases hm
  | succ k ih =>
    cases hp : f.parent? n with
    | none =>
      rw [ancestorsWithin_of_free k hp, List.mem_singleton] at hm
      exact hm ▸ hn
    | some p =>
      rw [ancestorsWithin_of_parent? k hp, List.mem_cons] at hm
      rcases hm with rfl | hm
      · exact hn
      · exact ih (up n p hn hp) hm

/-- In forests with the same parents a node has the same ancestors. -/
theorem ancestors_congr {f g : Forest α} (hf : g.fresh = f.fresh)
    (hp : ∀ n, g.parent? n = f.parent? n) (n : NodeId) : g.ancestors n = f.ancestors n := by
  have within : ∀ k n, g.ancestorsWithin k n = f.ancestorsWithin k n := by
    intro k
    induction k with
    | zero => exact fun _ => rfl
    | succ k ih =>
      intro n
      simp only [ancestorsWithin, hp, ih]
  show g.ancestorsWithin g.fresh n = f.ancestorsWithin f.fresh n
  rw [hf, within]

/-- A walk passes the same nodes in a forest in which they have the parents that they had. -/
theorem ancestorsWithin_of_parents {f g : Forest α} {k n : Nat}
    (h : ∀ a ∈ f.ancestorsWithin k n, ∀ p, f.parent? a = some p → g.parent? a = some p) {j : Nat}
    (hkj : k ≤ j) : f.ancestorsWithin k n <+: g.ancestorsWithin j n := by
  induction k generalizing n j with
  | zero => exact List.nil_prefix
  | succ k ih =>
    obtain ⟨j, rfl⟩ := Nat.exists_eq_add_of_le' (Nat.le_trans (Nat.le_add_left 1 k) hkj)
    cases hp : f.parent? n with
    | none =>
      rw [ancestorsWithin_of_free k hp]
      cases hg : g.parent? n with
      | none => exact (ancestorsWithin_of_free j hg).symm ▸ List.prefix_refl [n]
      | some q =>
        rw [ancestorsWithin_of_parent? j hg]
        exact List.cons_prefix_cons.2 ⟨rfl, List.nil_prefix⟩
    | some p =>
      rw [ancestorsWithin_of_parent? k hp] at h ⊢
      have rest := ih (n := p) (fun a ha => h a (List.mem_cons_of_mem _ ha)) (j := j) (by omega)
      rw [ancestorsWithin_of_parent? j (h n List.mem_cons_self p hp)]
      exact List.cons_prefix_cons.2 ⟨rfl, rest⟩

/-- A node is still inside of those that it was inside of, if no node on the way there lost its parent. -/
theorem mem_ancestors_of_parents {f g : Forest α} {n outer : NodeId} (hsize : f.fresh ≤ g.fresh)
    (h : ∀ a ∈ f.ancestors n, ∀ p, f.parent? a = some p → g.parent? a = some p)
    (hin : outer ∈ f.ancestors n) : outer ∈ g.ancestors n :=
  (ancestorsWithin_of_parents h hsize).subset hin

end InPlace.Forest

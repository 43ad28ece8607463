import InPlace.Proofs.Editing.References
import InPlace.Proofs.Headless.Contents

/-!
# Names that are looked up

Names are looked up in a document that changes all the time, and what was found is remembered. An element that is
looked up again may have been renamed, moved or taken out in between, it may have had another identity for a while,
and what is remembered may have been forgotten. None of this shows: what is said of the element is what holds of it
now. Only the name that it is called by may be the one from the document in which the remembered names were found;
so it is the one from now as well if the name attribute reads as it did then.

Main statement: `lookUp_run`.
-/

namespace InPlace

open Headless (Document PageEdit)

namespace NameCache

variable {N : Type} [DecidableEq N] {c : NameCache N} {n m : N}

/-- What is remembered of the elements that are kept. -/
theorem entry?_filter (c : NameCache N) (p : N → Bool) (seen : List N) (n : N) :
    entry? { entries := c.entries.filter fun e => p e.1, seen } n = if p n then c.entry? n else none := by
  unfold entry?
  rw [List.find?_filter]
  split
  · rename_i hp
    have same : (fun e : N × Naming => decide (p e.1 = true ∧ (e.1 == n) = true)) = fun e => e.1 == n := by
      funext e
      by_cases he : e.1 = n <;> simp [he, hp]
    rw [same]
  · rename_i hp
    rw [Option.map_eq_none_iff, List.find?_eq_none]
    intro e _ he
    simp only [beq_iff_eq, decide_eq_true_eq] at he
    exact hp (he.2 ▸ he.1)

theorem entry?_note (c : NameCache N) (m n : N) : NameCache.entry? (c.note m) n = c.entry? n := by
  unfold entry?
  rw [entries_note]

/-- An element that is forgotten has no entry; the others keep theirs. -/
theorem entry?_forget (c : NameCache N) (m n : N) :
    NameCache.entry? (c.forget m) n = if n = m then none else c.entry? n := by
  have kept := entry?_filter (c.note m) (fun k => k != m) (c.note m).seen n
  rw [entry?_note] at kept
  refine kept.trans ?_
  by_cases h : n = m <;> simp [h]

/-- After pruning only elements that live have entries. -/
theorem entry?_prune (c : NameCache N) (live : List N) (n : N) :
    NameCache.entry? (c.prune live) n = if n ∈ live then c.entry? n else none := by
  have noted : (live.foldl note c).entries = c.entries :=
    Forest.foldl_reading (r := NameCache.entries) entries_note live c
  have same : NameCache.entry? (live.foldl note c) n = c.entry? n := by
    unfold entry?
    rw [noted]
  refine (entry?_filter (live.foldl note c) live.contains _ n).trans ?_
  rw [same]
  exact if_congr List.contains_iff_mem rfl rfl

section

variable {P : Type} [Page P N]

/-- An element that is looked up has its names remembered. -/
theorem entry?_remember (c : NameCache N) (page : P) (m n : N) :
    NameCache.entry? (c.remember page m) n = if n = m then some (c.naming page m) else c.entry? n := by
  by_cases h : n = m
  · subst h
    simp [remember, entry?]
  · have older : NameCache.entry? (c.remember page m) n = NameCache.entry? (c.forget m) n := by
      unfold remember entry?
      rw [List.find?_cons_of_neg (by simpa using Ne.symm h)]
    rw [older, entry?_forget, if_neg h, if_neg h]

/-- What is remembered is given if it still holds, and otherwise what holds now. -/
theorem naming_cases (c : NameCache N) (page : P) (n : N) :
    (c.isFresh page n = true ∧ c.entry? n = some (c.naming page n)) ∨
      (c.isFresh page n = false ∧ c.naming page n = .ofElement page n) := by
  unfold isFresh naming
  cases c.entry? n with
  | none => exact .inr ⟨rfl, rfl⟩
  | some e =>
    rw [Option.any_some, Option.filter_some]
    cases e.raw == Page.attribute? page n identityAttribute with
    | true => exact .inl ⟨rfl, rfl⟩
    | false => exact .inr ⟨rfl, rfl⟩

end

end NameCache

/-- An element that is called by another name is the same for the rest. -/
theorem Metadata.ofNaming_named {P N : Type} [Page P N] (page : P) (n : N) (naming : Naming) (name : String) :
    ofNaming page n { naming with displayName := name } = { ofNaming page n naming with displayName := name } :=
  rfl

/-- A document, and the names of its elements that are remembered. -/
structure Directory where
  document : Document
  names : NameCache NodeId := {}

namespace Directory

/-- What may happen to a document and to the names that are remembered. -/
inductive Act where
  | edit (x : PageEdit)
  | lookUp (n : NodeId)
  | forget (n : NodeId)
  /-- To forget the elements that are not found in the document. -/
  | prune
  | clear

/-- The document as a page. -/
def page (r : Directory) : Headless :=
  { document := r.document }

/-- What is said of an element that is looked up. -/
def answer (r : Directory) (n : NodeId) : Metadata :=
  r.names.lookUp r.page n

/-- One thing happens to the document or to the names. -/
def step (r : Directory) : Act → Directory
  | .edit x => { r with document := x.apply r.document }
  | .lookUp n => { r with names := r.names.remember r.page n }
  | .forget n => { r with names := r.names.forget n }
  | .prune => { r with names := r.names.prune (Page.identified r.page) }
  | .clear => { r with names := r.names.clear }

/-- One thing happens after the other. -/
def run (r : Directory) (xs : List Act) : Directory :=
  xs.foldl step r

/-- Everything that is looked up is a node of the document then. -/
def AsksNodes (r : Directory) : List Act → Prop
  | [] => True
  | x :: xs => (∀ n, x = .lookUp n → (r.document.nodes.content? n).isSome) ∧ (r.step x).AsksNodes xs

/-- The names that are remembered of an element were found in this document, and have been remembered since. -/
def FoundIn (r : Directory) (n : NodeId) (d : Document) (xs : List Act) : Prop :=
  ∃ before after, xs = before ++ .lookUp n :: after ∧ (r.run before).document = d ∧
    (r.run before).names.isFresh (r.run before).page n = false ∧
    ∀ ys, ys <+: after → NameCache.entry? (r.run (before ++ .lookUp n :: ys)).names n =
      some (.ofElement (r.run before).page n)

/-- Every remembered name belongs to a node, with the tag that it has and the identity that its identity attribute
stands for. -/
structure Sound (r : Directory) : Prop where
  identities : r.names.Sound
  nodes : ∀ n naming, r.names.entry? n = some naming → n < r.document.nodes.fresh
  tags : ∀ n naming, r.names.entry? n = some naming → naming.tagName = r.document.tagName n

section

variable {r : Directory} {n : NodeId} {x : Act} {xs : List Act}

theorem run_append (r : Directory) (xs ys : List Act) : r.run (xs ++ ys) = (r.run xs).run ys :=
  List.foldl_append

/-! ## Steps -/

/-- What is remembered after a step was remembered before, or was found by it. -/
theorem entry?_step {naming : Naming} (h : NameCache.entry? (r.step x).names n = some naming) :
    r.names.entry? n = some naming ∨
      (x = .lookUp n ∧ r.names.isFresh r.page n = false ∧ naming = .ofElement r.page n) := by
  cases x with
  | edit x => exact .inl h
  | lookUp m =>
    have remembered : NameCache.entry? (r.names.remember r.page m) n = some naming := h
    rw [NameCache.entry?_remember] at remembered
    by_cases hm : n = m
    · subst hm
      rw [if_pos rfl] at remembered
      -- what is remembered is used while it is fresh, and found anew otherwise
      rcases r.names.naming_cases r.page n with ⟨-, kept⟩ | ⟨stale, found⟩
      · exact .inl (kept.trans remembered)
      · exact .inr ⟨rfl, stale, (Option.some.inj remembered).symm.trans found⟩
    · rw [if_neg hm] at remembered
      exact .inl remembered
  | forget m =>
    have kept : NameCache.entry? (r.names.forget m) n = some naming := h
    rw [NameCache.entry?_forget] at kept
    split at kept
    · cases kept
    · exact .inl kept
  | prune =>
    have kept : NameCache.entry? (r.names.prune (Page.identified r.page)) n = some naming := h
    rw [NameCache.entry?_prune] at kept
    split at kept
    · exact .inl kept
    · cases kept
  | clear => cases h

/-- The identities that are remembered stay those that were read. -/
theorem identities_step (h : r.names.Sound) (x : Act) : (r.step x).names.Sound := by
  cases x with
  | edit x => exact h
  | lookUp n => exact h.remember r.page n
  | forget n => exact h.forget n
  | prune => exact h.prune _
  | clear => exact List.forall_mem_nil _

theorem lt_fresh_step (x : Act) (hn : n < r.document.nodes.fresh) : n < (r.step x).document.nodes.fresh := by
  cases x with
  | edit x => exact x.lt_fresh_apply hn
  | _ => exact hn

theorem tagName_step (x : Act) (hn : n < r.document.nodes.fresh) :
    (r.step x).document.tagName n = r.document.tagName n := by
  cases x with
  | edit x => exact x.tagName_apply hn
  | _ => rfl

/-- The names that are remembered stay those that the document had. -/
theorem Sound.step (h : r.Sound) (hx : ∀ n, x = .lookUp n → (r.document.nodes.content? n).isSome) :
    (r.step x).Sound := by
  have kept : ∀ n naming, NameCache.entry? (r.step x).names n = some naming →
      n < r.document.nodes.fresh ∧ naming.tagName = r.document.tagName n := by
    intro n naming hentry
    rcases entry?_step hentry with before | ⟨rfl, -, rfl⟩
    · exact ⟨h.nodes n naming before, h.tags n naming before⟩
    · exact ⟨Forest.isSome_content?_iff.1 (hx n rfl), rfl⟩
  refine ⟨identities_step h.identities x, fun n naming hentry => ?_, fun n naming hentry => ?_⟩
  · exact lt_fresh_step x (kept n naming hentry).1
  · rw [tagName_step x (kept n naming hentry).1]
    exact (kept n naming hentry).2

/-! ## Runs -/

theorem Sound.run (h : r.Sound) (hxs : r.AsksNodes xs) : (r.run xs).Sound := by
  induction xs generalizing r with
  | nil => exact h
  | cons x xs ih => exact ih (h.step hxs.1) hxs.2

theorem sound_new (d : Document) : (Directory.mk d {}).Sound where
  identities := List.forall_mem_nil _
  nodes n naming h := by cases h
  tags n naming h := by cases h

/-- What was found and is still remembered after one more step has been remembered since it was found. -/
theorem FoundIn.snoc {d : Document} (h : r.FoundIn n d xs)
    (hx : NameCache.entry? (r.run (xs ++ [x])).names n = NameCache.entry? (r.run xs).names n) :
    r.FoundIn n d (xs ++ [x]) := by
  obtain ⟨before, after, rfl, hd, stale, since⟩ := h
  refine ⟨before, after ++ [x], by simp, hd, stale, ?_⟩
  intro ys hys
  rcases List.prefix_concat_iff.1 hys with rfl | hys
  · have last := since after (List.prefix_refl _)
    rw [← hx] at last
    simpa using last
  · exact since ys hys

theorem FoundIn.remembered {d : Document} (h : r.FoundIn n d xs) :
    NameCache.entry? (r.run xs).names n = some (.ofElement (Directory.mk d {}).page n) := by
  obtain ⟨before, after, rfl, rfl, -, since⟩ := h
  exact since after (List.prefix_refl _)

/-- What is remembered was found in some document, and has been remembered since. -/
theorem exists_foundIn {d : Document} {naming : Naming}
    (h : NameCache.entry? ((Directory.mk d {}).run xs).names n = some naming) :
    ∃ found, (Directory.mk d {}).FoundIn n found xs := by
  induction xs using List.reverseRecOn generalizing naming with
  | nil => cases h
  | append_singleton xs x ih =>
    have last : (Directory.mk d {}).run (xs ++ [x]) = ((Directory.mk d {}).run xs).step x := run_append _ xs [x]
    rw [last] at h
    rcases entry?_step h with before | ⟨rfl, stale, rfl⟩
    · obtain ⟨found, hfound⟩ := ih before
      refine ⟨found, hfound.snoc ?_⟩
      rw [last, h, before]
    · refine ⟨_, xs, [], rfl, rfl, stale, ?_⟩
      intro ys hys
      rw [List.prefix_nil.1 hys, last]
      exact h

/-! ## Answers -/

/-- The name that is given for an element is the one from now, if the name attribute reads as it did where the
remembered names were found. -/
theorem displayName_answer {d : Document} (h : r.Sound)
    (found : r.names.entry? n = some (.ofElement (Directory.mk d {}).page n))
    (same : r.document.attribute? n nameAttribute = d.attribute? n nameAttribute) :
    (r.answer n).displayName = (Metadata.ofElement r.page n).displayName := by
  rcases r.names.naming_cases r.page n with ⟨-, kept⟩ | ⟨-, now⟩
  · have naming : r.names.naming r.page n = .ofElement (Directory.mk d {}).page n :=
      Option.some.inj (kept.symm.trans found)
    have tag : d.tagName n = r.document.tagName n := h.tags n _ found
    calc (r.names.naming r.page n).displayName
        = (Naming.ofElement (Directory.mk d {}).page n).displayName := by rw [naming]
      _ = ((d.attribute? n nameAttribute).filter fun s => !s.isEmpty).getD (d.tagName n) := rfl
      _ = (Naming.ofElement r.page n).displayName := by rw [← same, tag]; rfl
  · exact congrArg Naming.displayName now

/-- But for the name, what is said of an element is what holds of it now. -/
theorem answer_eq (h : r.Sound) (n : NodeId) :
    r.answer n = { Metadata.ofElement r.page n with displayName := (r.answer n).displayName } := by
  have tag : (r.names.naming r.page n).tagName = r.document.tagName n := by
    rcases r.names.naming_cases r.page n with ⟨-, kept⟩ | ⟨-, now⟩
    · exact h.tags n _ kept
    · rw [now]
      rfl
  have naming : r.names.naming r.page n = { Naming.ofElement r.page n with
      displayName := (r.names.naming r.page n).displayName } := by
    rw [Naming.mk.injEq]
    exact ⟨NameCache.naming_raw _ _ _, h.identities.identity_naming _ _, rfl, tag⟩
  calc r.answer n
      = .ofNaming r.page n { Naming.ofElement r.page n with
          displayName := (r.names.naming r.page n).displayName } := congrArg (Metadata.ofNaming r.page n) naming
    _ = { Metadata.ofElement r.page n with displayName := (r.answer n).displayName } :=
        Metadata.ofNaming_named r.page n _ _

end

/-- Whatever happened to a document and to the names that are remembered: what is said of an element that is looked up
is what holds of it now, the name that it is called by apart. That is the one from now if nothing is remembered of the
element under its identity. If something is remembered, there is a document in which it was found, and if the name
attribute of the element reads as it did there, the name is the one from now, too. -/
theorem lookUp_run (d : Document) {xs : List Act} (hxs : (Directory.mk d {}).AsksNodes xs) (n : NodeId) :
    let r := (Directory.mk d {}).run xs
    let now := Metadata.ofElement r.page n
    r.answer n = { now with displayName := (r.answer n).displayName } ∧
      (r.names.isFresh r.page n = false → r.answer n = now) ∧
      ((r.names.entry? n).isSome → ∃ found, (Directory.mk d {}).FoundIn n found xs) ∧
      ∀ found, (Directory.mk d {}).FoundIn n found xs →
        r.document.attribute? n nameAttribute = found.attribute? n nameAttribute → r.answer n = now := by
  intro r now
  have sound : r.Sound := (sound_new d).run hxs
  have now_of_name : (r.answer n).displayName = now.displayName → r.answer n = now := by
    intro name
    rw [answer_eq sound n, name]
  refine ⟨answer_eq sound n, fun stale => ?_, fun remembered => ?_, fun found hfound same => ?_⟩
  · rcases r.names.naming_cases r.page n with ⟨fresh, -⟩ | ⟨-, naming⟩
    · cases stale.symm.trans fresh
    · exact congrArg (Metadata.ofNaming r.page n) naming
  · obtain ⟨naming, hnaming⟩ := Option.isSome_iff_exists.1 remembered
    exact exists_foundIn hnaming
  · exact now_of_name (displayName_answer sound hfound.remembered same)

/-- A card is looked up and then renamed. It is still called by its old name, but its text is seen to be preformatted
now. When it has its old name again, all that is said of it is what holds of it. -/
theorem lookUp_run_renamed :
    let found : List Act := [.edit (.appendIdentified 0 "p" "a.tsx:1:2"), .edit (.setAttribute 1 nameAttribute "Card")]
    let renamed : List Act := [.edit (.setAttribute 1 nameAttribute "Panel"),
      .edit (.setComputedStyle 1 "white-space" "pre")]
    let back : List Act := [.edit (.setAttribute 1 nameAttribute "Card")]
    let r := (Directory.mk .empty {}).run (found ++ .lookUp 1 :: renamed)
    let r' := (Directory.mk .empty {}).run (found ++ .lookUp 1 :: (renamed ++ back))
    ((r.answer 1).displayName = "Card" ∧ (Metadata.ofElement r.page 1).displayName = "Panel" ∧
        (r.answer 1).preformatted = true) ∧
      r'.answer 1 = Metadata.ofElement r'.page 1 := by
  intro found renamed back r r'
  let after := renamed ++ back
  have made : (((Directory.mk .empty {}).run found).document.nodes.content? 1).isSome := by
    rw [Forest.isSome_content?_iff]
    decide +kernel
  have asks : (Directory.mk .empty {}).AsksNodes (found ++ .lookUp 1 :: after) := by
    refine ⟨nofun, nofun, ?_, nofun, nofun, nofun, trivial⟩
    rintro n ⟨⟩
    exact made
  have since : ∀ i ≤ 3,
      NameCache.entry? ((Directory.mk .empty {}).run (found ++ .lookUp 1 :: after.take i)).names 1 =
        some (.ofElement ((Directory.mk .empty {}).run found).page 1) := by
    decide +kernel
  have lookedUp : (Directory.mk .empty {}).FoundIn 1 ((Directory.mk .empty {}).run found).document
      (found ++ .lookUp 1 :: after) := by
    refine ⟨found, after, rfl, rfl, by decide +kernel, fun ys hys => ?_⟩
    rw [List.prefix_iff_eq_take.1 hys]
    exact since _ hys.length_le
  have stale : (r.answer 1).displayName = "Card" ∧ (Metadata.ofElement r.page 1).displayName = "Panel" ∧
      (r.answer 1).preformatted = true := by decide +kernel
  have same : r'.document.attribute? 1 nameAttribute =
      ((Directory.mk .empty {}).run found).document.attribute? 1 nameAttribute := by decide +kernel
  have now := (lookUp_run .empty asks 1).2.2.2 _ lookedUp same
  exact ⟨stale, now⟩

end Directory

end InPlace

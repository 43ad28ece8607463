import InPlace.Proofs.Editing.Styling

/-!
# Styles that are rolled back

When an element is selected, the editor takes down what its `style` attribute reads, and when the selection is released
it sets the attribute to that. Between the two the host may have tried out other styles, and the page may have set some.
All of them are gone then, however the selection was released. Only an element that is deleted keeps the style it has.

What is put back is the text, and it is read anew. So the style is exactly as it was if it was last written as a text,
and what a page sets on a selected element is lost.

Main statements: `rollback_run` and `snapshot_run`.
-/

namespace InPlace

open Headless (Document PageEdit)

namespace Editor

/-- A step selects an element that was not selected. -/
def Selects (e : HeadlessEditor) (n : NodeId) (x : Step) : Prop :=
  e.state.selected? ≠ some n ∧ (e.step x).state.selected? = some n

/-- A step ends the selection of an element, and not by its deletion. A click that chooses the element once more does
so, too, and begins another selection of it. -/
def Releases (e : HeadlessEditor) (n : NodeId) (x : Step) : Prop :=
  e.state.selected? = some n ∧
    ((e.step x).state.selected? ≠ some n ∧ ¬ e.Obeys x .deleteElement ∨
      ∃ target, x = .operate (.event (.click target)) ∧ e.Chooses target n)

/-- A step writes declarations of an element by themselves: the page sets one, or the host tries some out. -/
def Declares (e : HeadlessEditor) (n : NodeId) : Step → Prop
  | .page x => x.Declares n
  | x => e.state.selected? = some n ∧ ∃ styles, e.Obeys x (.updateStyles styles)

/-- A step writes the style of an element as a text or takes it away: the page does, or the selection is released. -/
def Words (e : HeadlessEditor) (n : NodeId) : Step → Prop
  | .page x => x.Words n
  | x => e.Releases n x

/-- In a run the style of an element is written as a text at some time. -/
def GetsWorded (e : HeadlessEditor) (n : NodeId) : List Step → Prop
  | [] => False
  | x :: xs => e.Words n x ∨ (e.step x).GetsWorded n xs

/-- In a run the style of an element is last written as a text, if it is written at all. -/
def LastWorded (e : HeadlessEditor) (n : NodeId) : List Step → Prop
  | [] => True
  | x :: xs => (e.Declares n x → (e.step x).GetsWorded n xs) ∧ (e.step x).LastWorded n xs

/-- No step of a run writes the style of an element. -/
def Unwritten (e : HeadlessEditor) (n : NodeId) : List Step → Prop
  | [] => True
  | x :: xs => (¬ e.Declares n x ∧ ¬ e.Words n x) ∧ (e.step x).Unwritten n xs

/-- An element stays selected through a run. -/
def StaysSelected (e : HeadlessEditor) (n : NodeId) (xs : List Step) : Prop :=
  ∀ ys, ys <+: xs → (e.run ys).state.selected? = some n

/-- An element is selected, and what its style is to be set to when it is released is this text, written anew or not. -/
structure Holds (e : HeadlessEditor) (n : NodeId) (style : Option String) : Prop where
  there : (e.page.document.element? n).isSome
  selection : ∃ held, e.state.selection = some ⟨n, held⟩ ∧ held.map Styles.rewritten = style.map Styles.rewritten

section

variable {e e' : HeadlessEditor} {n : NodeId} {x y : Step} {xs ys : List Step} {style : Option String}

/-! ## What a release puts back -/

theorem GivesBack.hasStyle {held : Option String} (h : GivesBack e e') (hs : e.state.selection = some ⟨n, held⟩)
    (there : (e.page.document.element? n).isSome) : e'.page.document.HasStyle n held := by
  obtain ⟨d, elements, given⟩ := h.own _ hs
  exact given.hasStyle (Document.hasStyle_restyled (elements n there) held)

theorem GivesBack.worded (h : GivesBack e e') (hn : e.state.selected? = some n) : e'.page.document.Worded n := by
  obtain ⟨s, hs, rfl⟩ := Option.map_eq_some_iff.1 hn
  obtain ⟨d, -, given⟩ := h.own s hs
  exact given.worded (Document.worded_restyled d s.element s.unmarkedStyle)

/-- A step that ends the selection of an element, if it is not a deletion, gives the element its style back. -/
theorem Releases.givesBack (h : e.Releases n x) : GivesBack e (e.step x) := by
  obtain ⟨selected, ⟨gone, alive⟩ | ⟨target, rfl, chooses⟩⟩ := h
  · have lost : (e.step x).state.selection ≠ e.state.selection :=
      fun same => gone ((congrArg (Option.map Selection.element) same).trans selected)
    cases restyling_step e x with
    | edited _ selection _ => exact absurd selection lost
    | kept steady => exact absurd steady.selection lost
    | tried _ _ selection _ => exact absurd selection lost
    | released released => exact released.toGivesBack
    | chosen _ _ chosen => exact chosen.toGivesBack
    | deleted obeys _ _ => exact absurd obeys alive
  · exact (chosen_of_chooses chooses).toGivesBack

/-! ## Steps -/

/-- What is selected after a step was selected before, or the step has just selected it. -/
theorem selection_step (hn : (e.step x).state.selected? = some n) :
    (e.step x).state.selection = e.state.selection ∨ Chosen e n (e.step x) := by
  cases restyling_step e x with
  | edited _ selection _ => exact .inl selection
  | kept steady => exact .inl steady.selection
  | tried _ _ selection _ => exact .inl selection
  | released released =>
    rw [EditorState.selected?, released.gone] at hn
    cases hn
  | chosen _ _ chosen =>
    rw [EditorState.selected?, chosen.selection] at hn
    cases Option.some.inj hn
    exact .inr chosen
  | deleted _ gone _ =>
    rw [EditorState.selected?, gone] at hn
    cases hn

/-- A deletion leaves the styles alone. -/
theorem sameStyles_of_deletes (h : e.Obeys x .deleteElement) : SameStyles e (e.step x) := by
  rw [step_of_obeys h]
  refine withSelected_induction (P := fun e' => SameStyles e e') _ (fun _ _ _ _ => .refl e) fun n _ => ?_
  rcases deleteElement_styles e n with steady | ⟨-, styles⟩
  · exact steady.styles
  · exact styles

theorem declares_of_obeys {styles : List (String × String)} (hn : e.state.selected? = some n)
    (h : e.Obeys x (.updateStyles styles)) : e.Declares n x := by
  cases x with
  | page x => exact h.elim
  | _ => exact ⟨hn, styles, h⟩

theorem words_of_releases (h : e.Releases n x) : e.Words n x := by
  cases x with
  | page x =>
    obtain ⟨selected, ⟨gone, -⟩ | ⟨target, hx, -⟩⟩ := h
    · exact absurd selected gone
    · cases hx
  | _ => exact h

/-- A step that does not write the style of an element leaves it alone. -/
theorem sameStyle_step (hd : ¬ e.Declares n x) (hw : ¬ e.Words n x) :
    Document.SameStyle n e.page.document (e.step x).page.document := by
  by_cases hdel : e.Obeys x .deleteElement
  · exact sameStyles_of_deletes hdel n
  · have unselected : ((e.step x).state.selected? ≠ some n ∨
        ∃ target, x = .operate (.event (.click target)) ∧ e.Chooses target n) → e.state.selected? ≠ some n :=
      fun ends selected => hw (words_of_releases ⟨selected, ends.imp_left fun gone => ⟨gone, hdel⟩⟩)
    cases restyling_step e x with
    | edited page _ others =>
      subst page
      exact others n fun h => h.elim hd hw
    | kept steady => exact steady.styles n
    | tried selected obeys _ others =>
      refine others n fun h => hd (declares_of_obeys ?_ obeys)
      rw [h]
      exact selected
    | released released =>
      have none : (e.step x).state.selected? = none := congrArg (Option.map Selection.element) released.gone
      refine released.others n (unselected (.inl ?_))
      rw [none]
      exact Option.some_ne_none n |>.symm
    | @chosen target m click chooses chosen =>
      refine chosen.others n (unselected ?_)
      by_cases h : m = n
      · exact .inr ⟨target, click, h ▸ chooses⟩
      · left
        rw [EditorState.selected?, chosen.selection]
        exact fun selected => h (Option.some.inj selected)
    | deleted obeys _ _ => exact absurd obeys hdel

theorem worded_of_words (h : e.Words n x) : (e.step x).page.document.Worded n := by
  cases x with
  | page x => exact PageEdit.worded_apply h _
  | _ => exact (Releases.givesBack h).worded h.1

/-- A style that was last written as a text is so after every step that does not write a declaration by itself. -/
theorem worded_step (h : e.page.document.Worded n) (hd : ¬ e.Declares n x) : (e.step x).page.document.Worded n := by
  by_cases hw : e.Words n x
  · exact worded_of_words hw
  · exact (sameStyle_step hd hw).worded h

/-- A step that selects an element takes down what its `style` attribute read before. -/
theorem Selects.holds (h : e.Selects n x) : (e.step x).Holds n (e.page.document.attribute? n "style") := by
  obtain ⟨unselected, selected⟩ := h
  rcases selection_step selected with same | chosen
  · exact absurd ((congrArg (Option.map Selection.element) same).symm.trans selected) unselected
  · refine ⟨chosen.there, _, chosen.selection, ?_⟩
    rw [(chosen.others n unselected).text]

/-- What is to be put back stays the same while the element is selected. -/
theorem Holds.step (h : e.Holds n style) (hn : (e.step x).state.selected? = some n) : (e.step x).Holds n style := by
  obtain ⟨there, held, selection, same⟩ := h
  refine ⟨isSome_element?_step e x there, ?_⟩
  rcases selection_step hn with kept | chosen
  · exact ⟨held, kept.trans selection, same⟩
  · refine ⟨_, chosen.selection, ?_⟩
    rw [(chosen.hasStyle selection there).text, Option.map_map, ← same]
    exact Option.map_congr fun s _ => Styles.rewritten_rewritten s

/-! ## Runs -/

/-- Where a run can be carried out, it is seen step by step whether an element stays selected. -/
theorem staysSelected_of_take (h : ∀ i ≤ xs.length, (e.run (xs.take i)).state.selected? = some n) :
    e.StaysSelected n xs := by
  intro ys hys
  rw [List.prefix_iff_eq_take.1 hys]
  exact h _ hys.length_le

/-- A style text that is held is held while the element stays selected. -/
theorem Holds.run (h : e.Holds n style) (hxs : e.StaysSelected n xs) : (e.run xs).Holds n style := by
  induction xs generalizing e with
  | nil => exact h
  | cons x xs ih =>
    have first := hxs [x] (by simp)
    refine ih (h.step first) fun ys hys => ?_
    exact hxs (x :: ys) (List.cons_prefix_cons.2 ⟨rfl, hys⟩)

/-- An element whose style text is written last as a text has it after the run. -/
theorem worded_run (hxs : e.LastWorded n xs) (h : e.page.document.Worded n ∨ e.GetsWorded n xs) :
    (e.run xs).page.document.Worded n := by
  induction xs generalizing e with
  | nil => exact h.elim id False.elim
  | cons x xs ih =>
    refine ih hxs.2 ?_
    by_cases hd : e.Declares n x
    · exact .inr (hxs.1 hd)
    · rcases h with worded | words | later
      · exact .inl (worded_step worded hd)
      · exact .inl (worded_of_words words)
      · exact .inr later

/-- A style that nobody writes stays as it is. -/
theorem sameStyle_run (hxs : e.Unwritten n xs) : Document.SameStyle n e.page.document (e.run xs).page.document := by
  induction xs generalizing e with
  | nil => exact .refl n _
  | cons x xs ih => exact (sameStyle_step hxs.1.1 hxs.1.2).trans (ih hxs.2)

/-- An element that was selected and is released has the style that its attribute read before it was selected. -/
theorem hasStyle_of_releases (selects : e.Selects n x) (stays : (e.step x).StaysSelected n ys)
    (releases : ((e.step x).run ys).Releases n y) :
    (((e.step x).run ys).step y).page.document.HasStyle n (e.page.document.attribute? n "style") := by
  obtain ⟨there, held, selection, same⟩ := selects.holds.run stays
  exact (releases.givesBack.hasStyle selection there).congr same

end

/-- Whatever the host tried out and the page set while an element was selected: when its selection is released, the
element has the `style` attribute and the values of its inline style that it had just before it was selected, if its
style was last written as a text then. -/
theorem rollback_run {d : Document} (config : EditorConfig) (time : String) {xs ys : List Step} {x y : Step}
    {n : NodeId} (worded : d.Worded n) (last : (new d config time).LastWorded n xs)
    (selects : ((new d config time).run xs).Selects n x)
    (stays : ((new d config time).run (xs ++ [x])).StaysSelected n ys)
    (releases : ((new d config time).run (xs ++ x :: ys)).Releases n y) :
    let before := ((new d config time).run xs).page.document
    let after := ((new d config time).run (xs ++ x :: ys ++ [y])).page.document
    after.attribute? n "style" = before.attribute? n "style" ∧
      ∀ property, after.inlineStyle? n property = before.inlineStyle? n property := by
  intro before after
  rw [run_append _ xs (x :: ys)] at releases
  rw [run_append] at stays
  have ended : after = ((((new d config time).run xs).run (x :: ys)).step y).page.document := by
    show ((new d config time).run (xs ++ x :: ys ++ [y])).page.document = _
    rw [run_append _ _ [y], run_append _ xs]
    rfl
  have same : Document.SameStyle n before after := by
    rw [ended]
    exact (hasStyle_of_releases selects stays releases).sameStyle (worded_run last (.inl worded))
  refine ⟨same.text, fun property => ?_⟩
  unfold Document.inlineStyle?
  rw [same.declarations]

/-- An element has a style with more in its text than declarations. The host tries out styles that read as other
declarations when they are written as a text, and the element is chosen once more in between. -/
theorem rollback_run_previewed :
    let xs : List Step := [.page (.appendIdentified 0 "div" "a.tsx:1:0"),
      .page (.setAttribute 1 "style" " color:red;; none ;background: url(a:b) "), .operate (.setMode .enabled)]
    let click : Step := .operate (.event (.click 1))
    let ys : List Step := [.operate (.command (.updateStyles [("color", "blue; top: 0"), ("a;b", "c:d")])), click,
      .operate (.command (.updateStyles [("--x", ";")]))]
    let before := ((new .empty {} "").run xs).page.document
    let tried := ((new .empty {} "").run (xs ++ click :: ys)).page.document
    let after := ((new .empty {} "").run (xs ++ click :: ys ++ [.operate (.event (.keyDown "Escape"))])).page.document
    tried.attribute? 1 "style" = some "color: red; background: url(a:b); --x: ;;" ∧
      before.attribute? 1 "style" = some "color: red; background: url(a:b);" ∧
      after.attribute? 1 "style" = before.attribute? 1 "style" ∧
      ∀ property, after.inlineStyle? 1 property = before.inlineStyle? 1 property := by
  intro xs click ys before tried after
  have unset : Document.empty.Worded 1 := Document.worded_of_attribute? (Document.attribute?_empty 1 "style")
  have last : (new .empty {} "").LastWorded 1 xs := by
    refine ⟨fun h => h.elim, fun h => h.elim, ?_, trivial⟩
    rintro ⟨-, styles, h⟩
    cases h
  have stays : ((new .empty {} "").run (xs ++ [click])).StaysSelected 1 ys :=
    staysSelected_of_take (by decide +kernel)
  refine ⟨by decide +kernel, by decide +kernel, ?_⟩
  exact rollback_run {} "" unset last ⟨by decide +kernel, by decide +kernel⟩ stays
    ⟨by decide +kernel, .inl ⟨by decide +kernel, id⟩⟩

/-- What an element gets for its style when its selection ends. If it is not deleted, that is what its `style` attribute
read just before it was selected, whatever the page has set since. If it is deleted, it keeps the style that it had at
any earlier time since which neither the page nor the host has written it. -/
theorem snapshot_run (d : Document) (config : EditorConfig) (time : String) {xs ys : List Step} {x : Step} (y : Step)
    {n : NodeId} (selects : ((new d config time).run xs).Selects n x)
    (stays : ((new d config time).run (xs ++ [x])).StaysSelected n ys) :
    let before := ((new d config time).run xs).page.document
    let e := (new d config time).run (xs ++ x :: ys)
    let after := ((new d config time).run (xs ++ x :: ys ++ [y])).page.document
    (e.Releases n y → after.HasStyle n (before.attribute? n "style")) ∧
      (e.Obeys y .deleteElement → ∀ zs ws, ys = zs ++ ws →
        ((new d config time).run (xs ++ x :: zs)).Unwritten n ws →
          Document.SameStyle n ((new d config time).run (xs ++ x :: zs)).page.document after) := by
  intro before e after
  have ended : after = (e.step y).page.document := by
    show ((new d config time).run (xs ++ x :: ys ++ [y])).page.document = _
    rw [run_append _ _ [y]]
    rfl
  rw [run_append] at stays
  rw [ended]
  refine ⟨fun releases => ?_, fun deletes zs ws split unwritten => ?_⟩
  · have ran : e = ((new d config time).run xs).run (x :: ys) := run_append _ xs (x :: ys)
    rw [ran] at releases ⊢
    exact hasStyle_of_releases selects stays releases
  · -- up to the last time that the style was written nothing is known of it, and from there on it stays
    have ran : e = ((new d config time).run (xs ++ x :: zs)).run ws := by
      show (new d config time).run (xs ++ x :: ys) = _
      rw [split, ← run_append, List.append_assoc]
      rfl
    have waited := sameStyle_run unwritten
    rw [← ran] at waited
    exact waited.trans (sameStyles_of_deletes deletes n)

/-- A selected element has a style, the page sets another one, and then it scrolls. -/
def restyled : List Step :=
  [.page (.appendIdentified 0 "div" "a.tsx:1:0"), .page (.setAttribute 1 "style" "margin: 0"),
    .operate (.setMode .enabled), .operate (.event (.click 1)), .page (.setAttribute 1 "style" "color: red"),
    .operate (.event .scroll)]

/-- If the host clears the selection then, the element has its old style, and if it deletes the element, that has the
new one. -/
theorem snapshot_run_restyled :
    ((new .empty {} "").run (restyled ++ [.operate (.command .clearSelection)])).page.document.HasStyle 1
        (some "margin: 0;") ∧
      ((new .empty {} "").run (restyled ++ [.operate (.command .deleteElement)])).page.document.attribute? 1 "style" =
        some "color: red;" := by
  let xs := restyled.take 3
  let click : Step := .operate (.event (.click 1))
  let ys := restyled.drop 4
  have selects : ((new .empty {} "").run xs).Selects 1 click := ⟨by decide +kernel, by decide +kernel⟩
  have stays : ((new .empty {} "").run (xs ++ [click])).StaysSelected 1 ys :=
    staysSelected_of_take (by decide +kernel)
  have unwritten : ((new .empty {} "").run (xs ++ click :: ys.take 1)).Unwritten 1 (ys.drop 1) := by
    refine ⟨⟨fun ⟨_, _, h⟩ => h, ?_⟩, trivial⟩
    rintro ⟨-, ⟨gone, -⟩ | ⟨target, hx, -⟩⟩
    · exact absurd (by decide +kernel) gone
    · cases hx
  have cleared := (snapshot_run .empty {} "" (.operate (.command .clearSelection)) selects stays).1
  have deleted := (snapshot_run .empty {} "" (.operate (.command .deleteElement)) selects stays).2
  have set : ((new .empty {} "").run (xs ++ click :: ys.take 1)).page.document.attribute? 1 "style" =
      some "color: red;" := by decide +kernel
  have whole : restyled = xs ++ click :: ys := rfl
  rw [whole]
  exact ⟨cleared ⟨by decide +kernel, .inl ⟨by decide +kernel, nofun⟩⟩,
    (deleted rfl (ys.take 1) (ys.drop 1) rfl unwritten).text.trans set⟩

/-- What the page has set on a selected element is lost when the selection is cleared: the element has the style that
it had before. -/
theorem restyling_lost :
    let e := (new .empty {} "").run restyled
    let clear : Step := .operate (.command .clearSelection)
    e.Releases 1 clear ∧ e.page.document.attribute? 1 "style" = some "color: red;" ∧
      (e.step clear).page.document.attribute? 1 "style" = some "margin: 0;" := by
  intro e clear
  exact ⟨⟨by decide +kernel, .inl ⟨by decide +kernel, nofun⟩⟩, by decide +kernel⟩

end Editor

end InPlace

import InPlace.Proofs.Editing.Documents
import InPlace.Proofs.Headless.Rewriting
import InPlace.Proofs.Json.Fields
import InPlace.Proofs.Text.Words
import Mathlib.Data.List.Nodup

/-!
# Maps of styles and lists of class names

The host asks for styles with a map from properties to values, and for class names with two lists. The editor makes one
change after the other. What comes of all of them together is said here for the whole map and for the whole lists,
whatever the element had before.

Main statements: `Editor.updateStyles_restyled` and `Editor.updateClasses_reclassed`.
-/

namespace InPlace

open Headless (Document)
open Headless.PageEdit (orSame)
open Headless.Document (Rewritten)

/-! ## Changes of one element -/

namespace Editor

variable {e : HeadlessEditor} {n : NodeId}

/-- The editor with another document in its page. -/
def inDocument (e : HeadlessEditor) (d : Document) : HeadlessEditor :=
  { e with page := { e.page with document := d } }

/-- Changes of one element that are tried one after the other, none of which can fail. -/
theorem foldl_tryPage_rewritten {α : Type} {f : α → Document → Except PageError Document}
    {g : α → Headless.Element → Headless.Element}
    (hf : ∀ a d, (d.element? n).isSome → ∃ d', f a d = .ok d' ∧ Rewritten n (g a) d d') (failure : String)
    (fields : α → List (String × String)) (as : List α) (h : (e.page.document.element? n).isSome) :
    ∃ d, as.foldl (fun e a => e.tryPage (fun page => page.tryDocument (f a)) failure (fields a)) e = e.inDocument d ∧
      Rewritten n (fun el => as.foldl (fun el a => g a el) el) e.page.document d := by
  induction as generalizing e with
  | nil => exact ⟨e.page.document, rfl, .refl n _⟩
  | cons a as ih =>
    obtain ⟨d, hd, first⟩ := hf a e.page.document h
    obtain ⟨d', rest, others⟩ := ih (e := e.inDocument d) (first.isSome_element? h)
    refine ⟨d', ?_, first.trans others⟩
    have tried : e.page.tryDocument (f a) = .ok { e.page with document := d } := tryDocument_of_ok hd
    rw [List.foldl_cons, tryPage_of_ok tried]
    exact rest

end Editor

/-! ## Maps of styles -/

namespace Styles

variable {styles : List (String × String)}

/-- The declarations that a map of properties asks for, with the names that they have in a style. -/
def entries (styles : List (String × String)) : List (String × String) :=
  styles.map fun s => (propertyName s.1, s.2)

/-- Of the entries of a map that stand for the same property as `p` the one whose key is the last in the order of code
points. -/
structure LastFor (styles : List (String × String)) (p : String) (s : String × String) : Prop where
  mem : s ∈ styles
  same : propertyName s.1 = propertyName p
  last : ∀ t ∈ styles, propertyName t.1 = propertyName p → t.1 ≤ s.1

theorem mem_names_entries {name : String} :
    name ∈ Table.names (entries styles) ↔ ∃ s ∈ styles, propertyName s.1 = name := by
  simp [Table.names, entries]

/-- The value that counts in the end is that of the last key that stands for the property. -/
theorem get?_putAll_entries (hs : Json.Ordered styles) {s : String × String} (h : s ∈ styles) (t : Table) :
    ∃ last, LastFor styles s.1 last ∧ (t.putAll (entries styles)).get? (propertyName s.1) = some last.2 := by
  have read := Table.get?_putAll (entries styles) (propertyName s.1) t
  rw [entries, ← List.map_reverse, List.find?_map] at read
  cases found : styles.reverse.find? ((fun e => e.1 == propertyName s.1) ∘ fun s => (propertyName s.1, s.2)) with
  | none => exact absurd (List.find?_eq_none.1 found s (List.mem_reverse.2 h)) (by simp)
  | some last =>
    rw [found] at read
    obtain ⟨same, after, before, split, passed⟩ := List.find?_eq_some_iff_append.1 found
    have descending : (after ++ last :: before).Pairwise fun s t => t.1 < s.1 := by
      rw [← split]
      exact List.pairwise_reverse.2 hs
    refine ⟨last, ⟨List.mem_reverse.1 (split ▸ by simp), by simpa using same, fun t ht hname => ?_⟩, read⟩
    have ht := List.mem_reverse.2 ht
    rw [split, List.mem_append, List.mem_cons] at ht
    rcases ht with passedOver | rfl | earlier
    · exact absurd hname (by simpa using passed t passedOver)
    · exact le_refl _
    · exact le_of_lt ((List.pairwise_cons.1 (List.pairwise_append.1 descending).2.1).1 t earlier)

end Styles

namespace Headless.Document

variable {d d' : Document} {n : NodeId} {styles : List (String × String)}

/-- What a map of properties makes of the inline style of an element. -/
structure Restyled (styles : List (String × String)) (n : NodeId) (d d' : Document) : Prop where
  /-- A property of the map has the value of the last key that stands for the same property. -/
  computedStyle? : ∀ s ∈ styles, ∃ last, Styles.LastFor styles s.1 last ∧ d'.computedStyle? n s.1 = some last.2
  /-- Other properties have the values that they had. -/
  others : ∀ m p, (∀ s ∈ styles, Styles.propertyName s.1 ≠ Styles.propertyName p) →
    d'.computedStyle? m p = d.computedStyle? m p
  /-- The declarations that there were keep their order, and new ones come after them. -/
  names : Table.names (d'.declarations n) = Table.names (d.declarations n) ++
    ((styles.map fun s => Styles.propertyName s.1).filter fun name =>
      !(Table.names (d.declarations n)).contains name).eraseDups
  /-- A declaration that no key stands for keeps its value, and its place among the others. -/
  kept : ∀ (i : Nat) (entry : String × String), (d.declarations n)[i]? = some entry →
    (∀ s ∈ styles, Styles.propertyName s.1 ≠ entry.1) → (d'.declarations n)[i]? = some entry
  attribute? : ∀ m name, m ≠ n ∨ name ≠ "style" → d'.attribute? m name = d.attribute? m name
  /-- Of the element nothing changes but its declarations, and of the document nothing but the element. -/
  rewritten : Rewritten n (fun e => { e with styles := d'.declarations n }) d d'

/-- An element whose declarations are rewritten is restyled as the command promises. -/
theorem restyled_of_rewritten (hs : Json.Ordered styles) (h : (d.element? n).isSome)
    (hd : Rewritten n (fun e => { e with styles := e.styles.putAll (Styles.entries styles) }) d d') :
    Restyled styles n d d' := by
  obtain ⟨e, he⟩ := Option.isSome_iff_exists.1 h
  have before : d.declarations n = e.styles := by
    unfold declarations
    rw [he]
    rfl
  have after : d'.declarations n = e.styles.putAll (Styles.entries styles) := by
    unfold declarations
    rw [hd.element?, he]
    rfl
  have unmapped : ∀ name, (∀ s ∈ styles, Styles.propertyName s.1 ≠ name) →
      name ∉ Table.names (Styles.entries styles) := by
    intro name hname hmem
    obtain ⟨s, hs, same⟩ := Styles.mem_names_entries.1 hmem
    exact hname s hs same
  refine ⟨fun s hmem => ?_, fun m p hp => ?_, ?_, fun i entry hi hentry => ?_, fun m name hname => ?_, ?_⟩
  · obtain ⟨last, lastFor, value⟩ := Styles.get?_putAll_entries hs hmem e.styles
    refine ⟨last, lastFor, computedStyle?_of_inlineStyle? ?_⟩
    rw [inlineStyle?, after]
    exact value
  · refine hd.computedStyle? (fun _ => rfl) (fun _ => rfl) (fun e _ => ?_) m
    have passed : (Styles.entries styles).reverse.find? (fun f => f.1 == Styles.propertyName p) = none := by
      refine List.find?_eq_none.2 fun f hf => ?_
      have hmem := unmapped _ hp
      exact fun same => hmem (beq_iff_eq.1 same ▸ List.mem_map_of_mem (List.mem_reverse.1 hf))
    rw [Table.get?_putAll, passed]
    rfl
  · rw [before, after, Table.names_putAll]
    simp only [Table.names, Styles.entries, List.map_map, Function.comp_def]
  · rw [before] at hi
    rw [after]
    exact Table.getElem?_putAll_of_not_mem hi (unmapped entry.1 hentry)
  · rcases hname with other | other
    · exact hd.attribute?_of_ne other name
    · exact hd.attribute?_of_read (fun _ => by rw [readAttribute_of_ne other, readAttribute_of_ne other]) m
  · refine hd.congr fun e' he' => ?_
    cases Option.some.inj (he.symm.trans he')
    rw [after]

end Headless.Document

namespace Editor

variable {e : HeadlessEditor} {n : NodeId} {styles : List (String × String)}

/-- The command for styles rewrites the declarations of one element. -/
theorem updateStyles_rewritten (h : (e.page.document.element? n).isSome) (styles : List (String × String)) :
    ∃ d, e.updateStyles n styles = e.inDocument d ∧
      Rewritten n (fun el => { el with styles := el.styles.putAll (Styles.entries styles) }) e.page.document d := by
  obtain ⟨d, done, rewritten⟩ := foldl_tryPage_rewritten
    (f := fun (s : String × String) d => d.setStyle n s.1 s.2)
    (fun s d hd => Document.rewritten_setStyle hd s.1 s.2) "Failed to apply style"
    (fun s => [("property", s.1)]) styles h
  have all : ∀ (styles : List (String × String)) (el : Headless.Element),
      styles.foldl (fun el s => { el with styles := el.styles.put (Styles.propertyName s.1) s.2 }) el =
        { el with styles := el.styles.putAll (Styles.entries styles) } := by
    intro styles
    induction styles with
    | nil => exact fun _ => rfl
    | cons s styles ih => exact fun el => ih _
  exact ⟨d, done, rewritten.congr fun el _ => all styles el⟩

/-- A map of styles has its effect on the declarations of the selected element, and the same map once more has none on
any declaration. -/
theorem updateStyles_restyled (hn : e.state.selected? = some n) (h : (e.page.document.element? n).isSome)
    (hs : Json.Ordered styles) :
    ∃ d, e.handleCommand (.updateStyles styles) = (e.inDocument d, .applied) ∧
      Document.Restyled styles n e.page.document d ∧
      ∃ d', (e.inDocument d).handleCommand (.updateStyles styles) = (e.inDocument d', .applied) ∧
        ∀ m, d'.declarations m = d.declarations m := by
  have commanded : ∀ e : HeadlessEditor, e.state.selected? = some n →
      e.handleCommand (.updateStyles styles) = (e.updateStyles n styles, .applied) := by
    intro e hn
    unfold handleCommand withSelected
    rw [hn]
  obtain ⟨d, done, rewritten⟩ := updateStyles_rewritten h styles
  obtain ⟨d', again, unchanged⟩ := updateStyles_rewritten (e := e.inDocument d) (rewritten.isSome_element? h) styles
  refine ⟨d, by rw [commanded e hn, done], Document.restyled_of_rewritten hs h rewritten, d', ?_, fun m => ?_⟩
  · rw [commanded (e.inDocument d) hn, again]
    rfl
  · obtain ⟨el, hel⟩ := Option.isSome_iff_exists.1 h
    have inside : (e.inDocument d).page.document = d := rfl
    rw [inside] at unchanged
    unfold Document.declarations
    by_cases hm : m = n
    · subst hm
      rw [unchanged.element?, rewritten.element?, hel, Option.map_some, Option.map_some, Option.map_some,
        Option.map_some, Table.putAll_putAll]
    · rw [unchanged.element?_of_ne hm]

/-- A paragraph has a color twice. Two keys of the map stand for the same property, and one is read in another way than
the rest. -/
theorem updateStyles_restyled_paragraph :
    let e := (new .empty {} "").run [.page (.appendIdentified 0 "p" "a.tsx:1:0"), .operate (.setMode .enabled),
      .page (.setAttribute 1 "style" "color: red; margin: 0; color: blue"), .operate (.event (.click 1))]
    let styles := [("color", "green"), ("font-size", "1px"), ("fontSize", "2px"), ("whiteSpace", "pre")]
    let d := (e.handleCommand (.updateStyles styles)).1.page.document
    Document.Restyled styles 1 e.page.document d ∧ d.computedStyle? 1 "font-size" = some "2px" ∧
      d.declarations 1 =
        [("color", "green"), ("margin", "0"), ("color", "blue"), ("font-size", "2px"), ("white-space", "pre")] := by
  intro e styles d
  have selected : e.state.selected? = some 1 := by decide +kernel
  have ordered : Json.Ordered styles := by decide +kernel
  obtain ⟨d', done, restyled, -⟩ := updateStyles_restyled selected (by decide +kernel) ordered
  have same : d = d' := congrArg (fun r => r.1.page.document) done
  exact ⟨same ▸ restyled, by decide +kernel, by decide +kernel⟩

end Editor

/-! ## Lists of class names -/

namespace Headless

namespace Element

variable {e : Element} {names : List String}

/-- The element with these class names, and one blank between two of them. -/
def withClasses (names : List String) (e : Element) : Element :=
  { e with attributes := e.attributes.put "class" (" ".intercalate names) }

/-- An element has the class names that it was given. -/
theorem classes_withClasses (h : ∀ c ∈ names, Text.IsWord c) (e : Element) :
    Document.classes (withClasses names e) = names := by
  unfold Document.classes withClasses
  rw [Table.get?_put, if_pos rfl, Option.map_some, Option.getD_some, Text.words_intercalate h]

theorem withClasses_withClasses (names others : List String) (e : Element) :
    withClasses others (withClasses names e) = withClasses others e := by
  unfold withClasses
  rw [Table.put_put]

theorem isWord_of_mem_classes {c : String} (h : c ∈ Document.classes e) : Text.IsWord c := by
  unfold Document.classes at h
  cases hc : e.attributes.get? "class" with
  | none =>
    rw [hc] at h
    cases h
  | some s =>
    rw [hc] at h
    exact Text.isWord_of_mem_words h

/-- The element after a class name was taken away. -/
def withoutClass (name : String) (e : Element) : Element :=
  if (Document.classes e).contains name then withClasses ((Document.classes e).filter (· != name)) e else e

/-- The element after a class name was added. -/
def withClass (name : String) (e : Element) : Element :=
  if (Document.classes e).contains name then e else withClasses (Document.classes e ++ [name]) e

/-- Names that are taken away one after the other. If none of them was there, the text of the attribute stays. -/
theorem foldl_withoutClass (names : List String) (e : Element) :
    names.foldl (fun e name => withoutClass name e) e =
      if ∀ c ∈ names, c ∉ Document.classes e then e
      else withClasses ((Document.classes e).filter fun c => !names.contains c) e := by
  induction names generalizing e with
  | nil => simp
  | cons name names ih =>
    rw [List.foldl_cons, ih]
    -- only a name that is there writes the attribute anew, and every later one then finds words with single blanks
    by_cases there : name ∈ Document.classes e
    · have taken : withoutClass name e = withClasses ((Document.classes e).filter (· != name)) e :=
        if_pos (List.contains_iff_mem.2 there)
      have left : Document.classes (withoutClass name e) = (Document.classes e).filter (· != name) := by
        rw [taken]
        exact classes_withClasses (fun c hc => isWord_of_mem_classes (List.mem_of_mem_filter hc)) e
      have both : ((Document.classes e).filter (· != name)).filter (fun c => !names.contains c) =
          (Document.classes e).filter fun c => !(name :: names).contains c := by
        rw [List.filter_filter]
        refine List.filter_congr fun c _ => ?_
        rw [List.contains_cons, Bool.not_or, Bool.and_comm]
        rfl
      have some : ¬ ∀ c ∈ name :: names, c ∉ Document.classes e := fun h => h name List.mem_cons_self there
      rw [left, taken, if_neg some, both, withClasses_withClasses]
      split
      · rename_i none
        have all : ((Document.classes e).filter (· != name)).filter (fun c => !names.contains c) =
            (Document.classes e).filter (· != name) :=
          List.filter_eq_self.2 fun c hc => by simpa using fun hn => none c hn hc
        rw [← both, all]
      · rfl
    · have kept : withoutClass name e = e := if_neg fun hc => there (List.contains_iff_mem.1 hc)
      have same : ((Document.classes e).filter fun c => !(name :: names).contains c) =
          (Document.classes e).filter fun c => !names.contains c := by
        refine List.filter_congr fun c hc => ?_
        have other : (c == name) = false := by
          rw [beq_eq_false_iff_ne]
          rintro rfl
          exact there hc
        rw [List.contains_cons, other, Bool.false_or]
      rw [kept, same]
      simp only [List.forall_mem_cons, there, not_false_eq_true, true_and]

/-- Names that are added one after the other. If all of them were there, the text of the attribute stays. -/
theorem foldl_withClass (h : ∀ c ∈ names, Text.IsWord c) (e : Element) :
    names.foldl (fun e name => withClass name e) e =
      if ∀ c ∈ names, c ∈ Document.classes e then e
      else withClasses (names.foldl withLast (Document.classes e)) e := by
  induction names generalizing e with
  | nil => simp
  | cons name names ih =>
    rw [List.foldl_cons, List.foldl_cons, ih fun c hc => h c (List.mem_cons_of_mem _ hc)]
    by_cases there : name ∈ Document.classes e
    · have kept : withClass name e = e := if_pos (List.contains_iff_mem.2 there)
      rw [kept, withLast_of_mem there]
      simp only [List.forall_mem_cons, there, true_and]
    · have added : withClass name e = withClasses (Document.classes e ++ [name]) e :=
        if_neg fun hc => there (List.contains_iff_mem.1 hc)
      have more : Document.classes (withClass name e) = Document.classes e ++ [name] := by
        rw [added]
        refine classes_withClasses (fun c hc => ?_) e
        rcases List.mem_append.1 hc with old | new
        · exact isWord_of_mem_classes old
        · exact List.mem_singleton.1 new ▸ h name List.mem_cons_self
      have lacking : ¬ ∀ c ∈ name :: names, c ∈ Document.classes e := fun all => there (all name List.mem_cons_self)
      rw [more, added, if_neg lacking, withLast_of_not_mem there, withClasses_withClasses]
      split
      · rename_i all
        rw [foldl_withLast_of_subset all]
      · rfl

end Element

namespace Document

variable {d d' : Document} {n : NodeId} {changes : ClassChanges}

/-- No name that is to be taken away is there, and every one that is to be added is. -/
def Needless (changes : ClassChanges) (names : List String) : Prop :=
  (∀ c ∈ changes.remove, c ∉ names) ∧ ∀ c ∈ changes.add, c ∈ names

instance (changes : ClassChanges) (names : List String) : Decidable (Needless changes names) :=
  inferInstanceAs (Decidable (_ ∧ _))

/-- The class names that are left of those that an element had. -/
def namesLeft (changes : ClassChanges) (names : List String) : List String :=
  names.filter fun c => !changes.remove.contains c

/-- What lists of class names make of an element. -/
structure Reclassed (changes : ClassChanges) (n : NodeId) (d d' : Document) : Prop where
  /-- The names that were there and are not taken away, in their order, and after them those that are added and were not
  left, in the order in which they are first asked for. -/
  names : d'.classNames n = namesLeft changes (d.classNames n) ++
    (changes.add.filter fun c => !(namesLeft changes (d.classNames n)).contains c).eraseDups
  mem_iff : ∀ c, c ∈ d'.classNames n ↔ c ∈ changes.add ∨ c ∈ d.classNames n ∧ c ∉ changes.remove
  /-- A name that comes in anew is there once. -/
  once : ∀ c ∈ changes.add, c ∉ namesLeft changes (d.classNames n) → (d'.classNames n).count c = 1
  /-- The text of the attribute is written anew, unless there is nothing to do. -/
  text : d'.attribute? n "class" =
    if Needless changes (d.classNames n) then d.attribute? n "class" else some (" ".intercalate (d'.classNames n))
  attribute? : ∀ m name, m ≠ n ∨ name ≠ "class" → d'.attribute? m name = d.attribute? m name
  /-- Of the element nothing changes but that attribute, and of the document nothing but the element. -/
  rewritten : Rewritten n
    (fun e => if Needless changes (classes e) then e else e.withClasses (d'.classNames n)) d d'

/-- To remove a class name rewrites the class text of one element. -/
theorem rewritten_removeClass (h : (d.element? n).isSome) (name : String) :
    ∃ d', d.removeClass n name = .ok d' ∧ Rewritten n (Element.withoutClass name) d d' := by
  obtain ⟨e, he, hd⟩ := ifElement_of_isSome h fun e =>
    if (classes e).contains name then d.setClasses n ((classes e).filter (· != name)) else d
  refine ⟨_, hd, ?_⟩
  split
  · rename_i there
    refine (rewritten_setClasses d n _).congr fun e' he' => ?_
    cases Option.some.inj (he.symm.trans he')
    rw [Element.withoutClass, if_pos there]
    rfl
  · rename_i missing
    refine (Rewritten.refl n d).congr fun e' he' => ?_
    cases Option.some.inj (he.symm.trans he')
    rw [Element.withoutClass, if_neg missing]
    rfl

/-- To add a class name rewrites the class text of one element. -/
theorem rewritten_addClass (h : (d.element? n).isSome) (name : String) :
    ∃ d', d.addClass n name = .ok d' ∧ Rewritten n (Element.withClass name) d d' := by
  obtain ⟨e, he, hd⟩ := ifElement_of_isSome h fun e =>
    if (classes e).contains name then d else d.setClasses n (classes e ++ [name])
  refine ⟨_, hd, ?_⟩
  split
  · rename_i there
    refine (Rewritten.refl n d).congr fun e' he' => ?_
    cases Option.some.inj (he.symm.trans he')
    rw [Element.withClass, if_pos there]
    rfl
  · rename_i missing
    refine (rewritten_setClasses d n _).congr fun e' he' => ?_
    cases Option.some.inj (he.symm.trans he')
    rw [Element.withClass, if_neg missing]
    rfl

/-- The class names of an element after names were taken away and others added. -/
def namesAfter (changes : ClassChanges) (names : List String) : List String :=
  changes.add.foldl withLast (namesLeft changes names)

theorem isWord_of_mem_namesAfter {e : Element} (h : ∀ c ∈ changes.add, Text.IsWord c) {c : String}
    (hc : c ∈ namesAfter changes (classes e)) : Text.IsWord c := by
  rw [namesAfter, foldl_withLast, List.mem_append, List.mem_eraseDups] at hc
  rcases hc with old | new
  · exact Element.isWord_of_mem_classes (List.mem_of_mem_filter old)
  · exact h c (List.mem_of_mem_filter new)

/-- Both lists, one after the other. -/
theorem foldl_classChanges (h : ∀ c ∈ changes.add, Text.IsWord c) (e : Element) :
    changes.add.foldl (fun e name => e.withClass name) (changes.remove.foldl (fun e name => e.withoutClass name) e) =
      if Needless changes (classes e) then e else e.withClasses (namesAfter changes (classes e)) := by
  rw [Element.foldl_withoutClass]
  by_cases missing : ∀ c ∈ changes.remove, c ∉ classes e
  · have left : namesLeft changes (classes e) = classes e :=
      List.filter_eq_self.2 fun c hc => by simpa using fun hr => missing c hr hc
    have needless : (∀ c ∈ changes.add, c ∈ classes e) ↔ Needless changes (classes e) :=
      ⟨fun all => ⟨missing, all⟩, And.right⟩
    rw [if_pos missing, Element.foldl_withClass h, namesAfter, left]
    exact if_congr needless rfl rfl
  · have left : classes (e.withClasses (namesLeft changes (classes e))) = namesLeft changes (classes e) :=
      Element.classes_withClasses (fun c hc => Element.isWord_of_mem_classes (List.mem_of_mem_filter hc)) e
    have needed : ¬ Needless changes (classes e) := fun none => missing none.1
    rw [if_neg missing, if_neg needed]
    -- the names that are left are written already, and then all of them are written once more
    show changes.add.foldl _ (e.withClasses (namesLeft changes (classes e))) = _
    rw [Element.foldl_withClass h, left, Element.withClasses_withClasses, ← namesAfter]
    split
    · rename_i all
      rw [namesAfter, foldl_withLast_of_subset all]
    · rfl

/-- An element whose class text is rewritten has the class names as the command promises. -/
theorem reclassed_of_rewritten (hadd : ∀ c ∈ changes.add, Text.IsWord c) (h : (d.element? n).isSome)
    (hd : Rewritten n (fun e => changes.add.foldl (fun e name => e.withClass name)
      (changes.remove.foldl (fun e name => e.withoutClass name) e)) d d') : Reclassed changes n d d' := by
  obtain ⟨e, he⟩ := Option.isSome_iff_exists.1 h
  have hd := hd.congr fun e _ => foldl_classChanges hadd e
  have before : d.classNames n = classes e := by
    unfold classNames
    rw [he]
    rfl
  have after : d'.classNames n = namesAfter changes (classes e) := by
    unfold classNames
    rw [hd.element?, he, Option.map_some, Option.map_some, Option.getD_some]
    split
    · rename_i needless
      have left : namesLeft changes (classes e) = classes e :=
        List.filter_eq_self.2 fun c hc => by simpa using fun hr => needless.1 c hr hc
      rw [namesAfter, left, foldl_withLast_of_subset needless.2]
    · exact Element.classes_withClasses (fun c hc => isWord_of_mem_namesAfter hadd hc) e
  have names := foldl_withLast (namesLeft changes (classes e)) changes.add
  refine ⟨?_, fun c => ?_, fun c hc hnew => ?_, ?_, fun m name hname => ?_, ?_⟩
  · rw [before, after]
    exact names
  · rw [before, after, namesAfter, names, List.mem_append, List.mem_eraseDups, List.mem_filter, namesLeft,
      List.mem_filter]
    by_cases hr : c ∈ changes.remove <;> by_cases hc : c ∈ classes e <;> simp [hr, hc]
  · rw [before] at hnew
    rw [after, namesAfter, names, List.count_append, List.count_eq_zero_of_not_mem hnew, Nat.zero_add]
    exact List.count_eq_one_of_mem (nodup_eraseDups _)
      (List.mem_eraseDups.2 (List.mem_filter.2 ⟨hc, by simpa using hnew⟩))
  · rw [before, after, attribute?_eq, attribute?_eq, hd.element?, he, Option.map_some, Option.bind_some,
      Option.bind_some]
    split
    · rfl
    · rw [readAttribute_of_ne (by decide), Element.withClasses, Table.get?_put, if_pos rfl]
  · rcases hname with other | other
    · exact hd.attribute?_of_ne other name
    · refine hd.attribute?_of_read (fun e => ?_) m
      split
      · rfl
      · unfold readAttribute Element.withClasses
        rw [Table.get?_put, if_neg (Ne.symm other)]
  · refine hd.congr fun e' he' => ?_
    cases Option.some.inj (he.symm.trans he')
    rw [after]

end Document

end Headless

namespace Editor

variable {e : HeadlessEditor} {n : NodeId} {changes : ClassChanges}

/-- The command for class names rewrites the class text of one element. -/
theorem updateClasses_rewritten (h : (e.page.document.element? n).isSome) (changes : ClassChanges) :
    ∃ d, e.updateClasses n changes = e.inDocument d ∧
      Rewritten n (fun el => changes.add.foldl (fun el name => el.withClass name)
        (changes.remove.foldl (fun el name => el.withoutClass name) el)) e.page.document d := by
  obtain ⟨d, removed, first⟩ := foldl_tryPage_rewritten (f := fun c d => d.removeClass n c)
    (fun c d hd => Document.rewritten_removeClass hd c) "Failed to remove class" (fun c => [("class", c)])
    changes.remove h
  obtain ⟨d', added, second⟩ := foldl_tryPage_rewritten (e := e.inDocument d) (f := fun c d => d.addClass n c)
    (fun c d hd => Document.rewritten_addClass hd c) "Failed to add class" (fun c => [("class", c)])
    changes.add (first.isSome_element? h)
  refine ⟨d', ?_, first.trans second⟩
  unfold updateClasses
  exact (congrArg (fun e => changes.add.foldl _ e) removed).trans added

/-- Class names are taken away and then others added, as if the attribute were the list of its names. -/
theorem updateClasses_reclassed (hn : e.state.selected? = some n) (h : (e.page.document.element? n).isSome)
    (hadd : ∀ c ∈ changes.add, Text.IsWord c) :
    ∃ d, e.handleCommand (.updateClasses changes) = (e.inDocument d, .applied) ∧
      Document.Reclassed changes n e.page.document d := by
  obtain ⟨d, done, rewritten⟩ := updateClasses_rewritten h changes
  refine ⟨d, ?_, Document.reclassed_of_rewritten hadd h rewritten⟩
  unfold handleCommand withSelected
  rw [hn]
  dsimp only
  rw [done]

/-- Lists that overlap and repeat names, for an attribute with blanks of all kinds. -/
theorem updateClasses_reclassed_paragraph :
    let e := (new .empty {} "").run [.page (.appendIdentified 0 "p" "a.tsx:1:0"), .operate (.setMode .enabled),
      .page (.setAttribute 1 "class" " a b\ta  c"), .operate (.event (.click 1))]
    let changes : ClassChanges := { add := ["d", "c", "b", "d"], remove := ["b", "a", "e"] }
    let d := (e.handleCommand (.updateClasses changes)).1.page.document
    Document.Reclassed changes 1 e.page.document d ∧ d.attribute? 1 "class" = some "c d b" := by
  intro e changes d
  have selected : e.state.selected? = some 1 := by decide +kernel
  have read : ∀ c ∈ changes.add, c ∈ Text.words "b c d" := by decide +kernel
  have solid : ∀ c ∈ changes.add, Text.IsWord c := fun c hc => Text.isWord_of_mem_words (read c hc)
  obtain ⟨d', done, reclassed⟩ := updateClasses_reclassed selected (by decide +kernel) solid
  have same : d = d' := congrArg (fun r => r.1.page.document) done
  exact ⟨same ▸ reclassed, by decide +kernel⟩

end Editor

end InPlace

import InPlace.Proofs.Editing.HoverMarks

/-!
# The hover as the host knows it

A host that hears every message can tell from those that it heard since the mode last became enabled whether something is
hovered: the last one on the hover says so. There are two ways to mislead it (`LosesHover`). The hovered element is out of
the document when the editor hears that the page has changed, or the host deletes what the hovered element is in. In both
the hover ends without a word, and the host is wrong until something is hovered again or the mode changes (`HoverLost`).

Main statements: `hover_step`, `Knows.snoc` and `lastShowsHover_run`.
-/

namespace InPlace

open Headless (Document PageEdit)

namespace Envelope

/-- What a message on the hover says: the description of what is hovered, or null. -/
def showsHover (m : Envelope) : Bool :=
  match m.payload with
  | .null => false
  | _ => true

/-- Whether the last message on the hover, if there is one, says that something is hovered. -/
def lastShowsHover (ms : List Envelope) : Bool :=
  (ms.filter fun m => m.topic? == some .hover).getLast?.any showsHover

theorem showsHover_some (d : Descriptor) (tag : String) :
    (ofNotice (.hoverChanged (some d)) tag).showsHover = true :=
  rfl

theorem showsHover_none (tag : String) : (ofNotice (.hoverChanged none) tag).showsHover = false :=
  rfl

section

variable {ms ns : List Envelope} {m : Envelope}

theorem lastShowsHover_append_of_nil (h : ns.filter (fun m => m.topic? == some .hover) = []) :
    lastShowsHover (ms ++ ns) = lastShowsHover ms := by
  unfold lastShowsHover
  rw [List.filter_append, h, List.append_nil]

theorem lastShowsHover_append_of_singleton (h : ns.filter (fun m => m.topic? == some .hover) = [m]) :
    lastShowsHover (ms ++ ns) = m.showsHover := by
  unfold lastShowsHover
  rw [List.filter_append, h, List.getLast?_concat, Option.any_some]

end

end Envelope

open Envelope (lastShowsHover)

namespace Editor

variable {e : HeadlessEditor} {x : Step} {xs : List Step}

/-! ## What the host hears -/

/-- The messages that a step sends. -/
def news (e : HeadlessEditor) (x : Step) : List Envelope :=
  (e.step x).page.outbox.sent.drop e.page.outbox.sent.length

/-- The messages of a run that were sent since the mode last became enabled, by a host that had heard these. -/
def heard (e : HeadlessEditor) (ms : List Envelope) : List Step → List Envelope
  | [] => ms
  | x :: xs => (e.step x).heard (if e.state.mode = .enabled then ms ++ e.news x else e.news x) xs

/-- What is heard goes on while elements can be edited, and begins anew otherwise. -/
theorem heard_snoc (e : HeadlessEditor) (ms : List Envelope) (xs : List Step) (x : Step) :
    e.heard ms (xs ++ [x]) = if (e.run xs).state.mode = .enabled then e.heard ms xs ++ (e.run xs).news x
      else (e.run xs).news x := by
  induction xs generalizing e ms with
  | nil => rfl
  | cons y ys ih =>
    rw [List.cons_append, heard, heard, ih, run_cons]

/-- What was sent stays sent. -/
theorem sent_step (e : HeadlessEditor) (x : Step) :
    e.page.outbox.sent <+: (e.step x).page.outbox.sent := by
  cases x with
  | page x => exact (edit_only e x).sent
  | clock time => exact (clock_only e time).sent
  | channel failing => exact (channel_only e failing).sent
  | operate o =>
    by_cases ho : o = .contentChanged
    · subst ho
      exact (contentChanged_only e).sent
    · exact (operate_only e ho).sent

/-- The messages on a topic grow by those that a step sends on it. -/
theorem told_step (e : HeadlessEditor) (x : Step) (t : Topic) :
    (e.step x).told t = e.told t ++ (e.news x).filter fun m => m.topic? == some t := by
  obtain ⟨ms, hms⟩ := sent_step e x
  have new : e.news x = ms := by
    rw [news, ← hms, List.drop_left]
  rw [new, told, ← hms, List.filter_append]
  rfl

/-- What the messages on a topic grow by is what a step sends on it. -/
theorem filter_news {t : Topic} {ms : List Envelope} (h : (e.step x).told t = e.told t ++ ms) :
    (e.news x).filter (fun m => m.topic? == some t) = ms := by
  rw [told_step, List.append_cancel_left_eq] at h
  exact h

theorem filter_news_of_silent {t : Topic} (h : (e.step x).told t = e.told t) :
    (e.news x).filter (fun m => m.topic? == some t) = [] :=
  filter_news (h.trans (List.append_nil _).symm)

/-! ## Steps -/

/-- The step deletes what the hovered node is in. -/
def BuriesHover (n : NodeId) (e : HeadlessEditor) (x : Step) : Prop :=
  e.state.hover = some n ∧ e.Buries n ∧
    ∃ o, x = .operate o ∧ o.command? e.config = some .deleteElement

/-- The hover ends with this step, and the host is not told. -/
def LosesHover (e : HeadlessEditor) (x : Step) : Prop :=
  ∃ n, Forgets n e x ∨ BuriesHover n e x

/-- The hover ended without a word, and since then nothing was hovered and the mode has stayed enabled. -/
def HoverLost (e : HeadlessEditor) (xs : List Step) : Prop :=
  e.Since LosesHover (fun e => e.state.mode = .enabled ∧ e.state.hover = none) xs

theorem operate_of_command? {o : Operation} {c : Command} (h : o.command? e.config = some c) :
    e.operate o = (e.handleCommand c).1 := by
  cases o with
  | receive data fromParent =>
    rcases receive_cases e data fromParent with ⟨r, level, message, fields, refused, -⟩ | ⟨c', accepted, heq⟩
    · simp [Operation.command?, refused] at h
    · simp only [Operation.command?, accepted, Option.some_inj] at h
      rw [← h]
      exact heq
  | command c' =>
    cases h
    rfl
  | setMode m =>
    cases h
    rfl
  | contentChanged => simp [Operation.command?] at h
  | event ev => simp [Operation.command?] at h
  | startEdit n => simp [Operation.command?] at h
  | endEdit commit => simp [Operation.command?] at h

/-- What such a step does: something was hovered, nothing is afterwards, and the host does not hear of it. -/
theorem losesHover_step (h : LosesHover e x) :
    e.state.hover ≠ none ∧ (e.step x).state.hover = none ∧ (e.step x).told .hover = e.told .hover := by
  obtain ⟨m, ⟨rfl, hm, out⟩ | ⟨hm, ⟨n, hn, inside⟩, o, rfl, deletes⟩⟩ := h
  · obtain ⟨hover, told⟩ := forgets_contentChanged hm out
    exact ⟨by simp [hm], hover, told⟩
  · have deleted : e.step (.operate o) = (e.deleteElement n).1 := by
      show e.operate o = _
      rw [operate_of_command? deletes, handleCommand, withSelected, hn]
    have unedited := sameHover_unedited e n
    have rest := sameHover_deleteElement e n
    have before : (e.unedited n).state.hover = some m := unedited.hover.trans hm
    have dropped : e.letGo n = (e.unedited n).unhover m := by
      rw [letGo_eq, before, Option.any_some, if_pos inside, clearHover_of_some before,
        if_neg Bool.false_ne_true]
    rw [deleted]
    refine ⟨by simp [hm], ?_, ?_⟩
    · rw [rest.hover, dropped]
      rfl
    · rw [rest.told, dropped]
      exact ((unhover_only (e.unedited n) m).told_eq (by decide)).trans unedited.told

/-- What a step does about the hover, and what the host hears of it. -/
theorem hover_step (hx : x ≠ .channel true) (channel : e.page.outbox.failing = false) :
    ((e.step x).state.hover = e.state.hover ∧ (e.step x).told .hover = e.told .hover) ∨
    (e.state.mode = .enabled ∧ (e.step x).state.hover ≠ none ∧ ∃ d, (e.step x).told .hover =
      e.told .hover ++ [.ofNotice (.hoverChanged (some d)) e.config.editorTag]) ∨
    (e.state.hover ≠ none ∧ (e.step x).state.hover = none ∧ (e.step x).told .hover =
      e.told .hover ++ [.ofNotice (.hoverChanged none) e.config.editorTag]) ∨
    (e.state.hover ≠ none ∧ (e.step x).state.hover = none ∧ (e.step x).told .hover = e.told .hover ∧
      ((e.step x).state.mode ≠ .enabled ∨ LosesHover e x)) := by
  cases x with
  | page x => exact .inl ⟨(edit_only e x).hover_eq (by simp), (edit_only e x).told_eq (by simp)⟩
  | clock time => exact .inl ⟨rfl, rfl⟩
  | channel failing => exact .inl ⟨rfl, rfl⟩
  | operate o =>
    by_cases ho : o = .contentChanged
    · subst ho
      by_cases hn : ∃ n, e.state.hover = some n ∧ e.page.document.isConnected n = false
      · obtain ⟨n, hn, out⟩ := hn
        have forgets : LosesHover e (.operate .contentChanged) := ⟨n, .inl ⟨rfl, hn, out⟩⟩
        obtain ⟨was, hover, told⟩ := losesHover_step forgets
        exact .inr (.inr (.inr ⟨was, hover, told, .inr forgets⟩))
      · have same := sameHover_contentChanged (e := e)
          fun n hover => eq_true_of_ne_false fun out => hn ⟨n, hover, out⟩
        exact .inl ⟨same.hover, same.told⟩
    · rcases turn_operate (e := e) ho with same | ⟨n, mode, hover, -, told⟩ | ⟨n, was, hover, -, told⟩ |
        ⟨n, hushes, was, hover, -, told⟩
      · exact .inl ⟨same.hover, same.told⟩
      · have hovered : (e.operate o).state.hover ≠ none := by simp [hover]
        exact .inr (.inl ⟨mode, hovered, told channel⟩)
      · exact .inr (.inr (.inl ⟨by simp [was], hover, told channel⟩))
      · refine .inr (.inr (.inr ⟨by simp [was], hover, told, ?_⟩))
        -- a hover lapses in silence when the mode changes, or when the deletion buries it
        rcases hushes with mode | ⟨deletes, buries⟩
        · exact .inl mode
        · exact .inr ⟨n, .inr ⟨was, buries, o, rfl, deletes⟩⟩

/-! ## Runs -/

/-- The hover is no longer lost once something is hovered or the mode is another one. -/
theorem HoverLost.hover (h : e.HoverLost xs) : (e.run xs).state.hover = none :=
  h.last.2

theorem HoverLost.mode (h : e.HoverLost xs) : (e.run xs).state.mode = .enabled :=
  h.last.1

/-- A hover is lost after a step that leaves nothing hovered, if it was lost before or the step loses it. -/
theorem hoverLost_snoc : e.HoverLost (xs ++ [x]) ↔
    (((e.run xs).step x).state.mode = .enabled ∧ ((e.run xs).step x).state.hover = none) ∧
      (e.HoverLost xs ∨ LosesHover (e.run xs) x) := by
  refine since_snoc.trans ?_
  rw [run_append]
  rfl

/-- What the host makes of what it has heard is right after a run, as far as the hover is not lost. -/
def Knows (e : HeadlessEditor) (xs : List Step) : Prop :=
  lastShowsHover (e.heard [] xs) = true ↔ (e.run xs).state.hover ≠ none ∨ e.HoverLost xs

/-- A step that begins while the mode is enabled adds to what the host has heard. -/
theorem Knows.snoc (k : e.Knows xs) (enabled : (e.run xs).state.mode = .enabled)
    (channel : (e.run xs).page.outbox.failing = false) (hx : x ≠ .channel true)
    (mode : ((e.run xs).step x).state.mode = .enabled) : e.Knows (xs ++ [x]) := by
  unfold Knows at k ⊢
  rw [hoverLost_snoc, heard_snoc, if_pos enabled, run_append]
  change _ ↔ ((e.run xs).step x).state.hover ≠ none ∨ _
  rcases hover_step hx channel with ⟨hover, same⟩ | ⟨-, hovered, d, tells⟩ | ⟨was, hover, tells⟩ |
    ⟨was, hover, same, lost⟩
  · rw [Envelope.lastShowsHover_append_of_nil (filter_news_of_silent same), k, hover]
    constructor
    · rintro (hovered | lost)
      · exact .inl hovered
      · exact .inr ⟨⟨mode, lost.hover⟩, .inl lost⟩
    · rintro (hovered | ⟨⟨-, free⟩, lost | loses⟩)
      · exact .inl hovered
      · exact .inr lost
      · exact absurd free (losesHover_step loses).1
  · rw [Envelope.lastShowsHover_append_of_singleton (filter_news tells), Envelope.showsHover_some]
    exact ⟨fun _ => .inl hovered, fun _ => rfl⟩
  · rw [Envelope.lastShowsHover_append_of_singleton (filter_news tells), Envelope.showsHover_none, hover]
    refine ⟨fun shown => absurd shown Bool.false_ne_true, ?_⟩
    rintro (hovered | ⟨-, lost | loses⟩)
    · exact absurd rfl hovered
    · exact absurd lost.hover was
    · have silent := (losesHover_step loses).2.2
      rw [tells] at silent
      simp at silent
  · rw [Envelope.lastShowsHover_append_of_nil (filter_news_of_silent same), k]
    have loses := lost.resolve_left fun other => other mode
    exact ⟨fun _ => .inr ⟨⟨mode, hover⟩, .inr loses⟩, fun _ => .inl was⟩

/-- When the mode becomes enabled nothing is hovered, and the host has heard nothing on the hover. -/
theorem knows_of_enabling (calm : Calm (e.run xs)) (enabled : (e.run xs).state.mode ≠ .enabled)
    (channel : (e.run xs).page.outbox.failing = false) (hx : x ≠ .channel true) : e.Knows (xs ++ [x]) := by
  have free := calm enabled
  unfold Knows
  rw [hoverLost_snoc, heard_snoc, if_neg enabled, run_append]
  change _ ↔ ((e.run xs).step x).state.hover ≠ none ∨ _
  rcases hover_step hx channel with ⟨hover, same⟩ | ⟨enabled', -⟩ | ⟨was, -⟩ | ⟨was, -⟩
  · rw [← List.nil_append ((e.run xs).news x),
      Envelope.lastShowsHover_append_of_nil (filter_news_of_silent same), hover, free]
    refine ⟨fun shown => absurd shown Bool.false_ne_true, ?_⟩
    rintro (hovered | ⟨-, lost | loses⟩)
    · exact absurd rfl hovered
    · exact absurd lost.mode enabled
    · exact absurd free (losesHover_step loses).1
  -- a hover begins only while the mode is enabled, and none can end that there is not
  · exact absurd enabled' enabled
  · exact absurd free was
  · exact absurd free was

/-- In every state of a run without a failing channel in which the mode is enabled: the last message on the hover since
the mode became enabled says that something is hovered exactly if something is, or the hover is lost. -/
theorem lastShowsHover_run (d : Document) (config : EditorConfig) (time : String)
    (hxs : .channel true ∉ xs) (mode : ((new d config time).run xs).state.mode = .enabled) :
    lastShowsHover ((new d config time).heard [] xs) = true ↔
      ((new d config time).run xs).state.hover ≠ none ∨ (new d config time).HoverLost xs := by
  induction xs using List.reverseRecOn with
  | nil => exact absurd mode (by simp [run, new])
  | append_singleton xs x ih =>
    have earlier : .channel true ∉ xs := fun h => hxs (List.mem_append_left _ h)
    have last : x ≠ .channel true := fun h => hxs (by simp [h])
    have channel : ((new d config time).run xs).page.outbox.failing = false := notFailing_run earlier rfl
    rw [run_append] at mode
    by_cases enabled : ((new d config time).run xs).state.mode = .enabled
    · have knows : (new d config time).Knows xs := ih earlier enabled
      exact knows.snoc enabled channel last mode
    · exact knows_of_enabling (calm_run d config time xs) enabled channel last

/-- A paragraph inside of a section is hovered; then the host, who has selected the section, deletes it. -/
def buryingRun : List Step :=
  [.page (.appendIdentified 0 "section" "a.tsx:1:0"), .page (.appendIdentified 1 "p" "a.tsx:2:2"),
    .operate (.setMode .enabled), .operate (.event (.click 1)), .operate (.event (.pointerOver 2)),
    .operate (.command .deleteElement)]

/-- The host knows of the hover before the deletion. After it the host is wrong, and the hover is lost. -/
theorem lastShowsHover_run_burying :
    lastShowsHover ((new .empty {} "").heard [] (buryingRun.take 5)) = true ∧
      (new .empty {} "").HoverLost buryingRun := by
  have mended : ∀ k, .channel true ∉ buryingRun.take k := by
    intro k h
    have listed := List.mem_of_mem_take h
    simp [buryingRun] at listed
  have enabled : ((new .empty {} "").run (buryingRun.take 5)).state.mode = .enabled := by decide +kernel
  have hovered : ((new .empty {} "").run (buryingRun.take 5)).state.hover = some 2 := by decide +kernel
  have still : ((new .empty {} "").run (buryingRun.take 6)).state.mode = .enabled := by decide +kernel
  have free : ((new .empty {} "").run (buryingRun.take 6)).state.hover = none := by decide +kernel
  have shown : lastShowsHover ((new .empty {} "").heard [] (buryingRun.take 6)) = true := by decide +kernel
  have before := lastShowsHover_run .empty {} "" (mended 5) enabled
  have after := lastShowsHover_run .empty {} "" (mended 6) still
  refine ⟨before.2 (.inl ?_), ?_⟩
  · rw [hovered]
    simp
  · rcases after.1 shown with hover | lost
    · exact absurd free hover
    · exact lost

/-- What the host heard last says that something is hovered, and nothing is: after the news that the page took the
hovered element out, and after the deletion of what the hovered element was in. -/
theorem misled_host :
    let xs : List Step := [.page (.appendIdentified 0 "p" "a.tsx:1:0"), .operate (.setMode .enabled),
      .operate (.event (.pointerOver 1)), .page (.remove 1), .operate .contentChanged]
    (((new .empty {} "").run xs).state.mode = .enabled ∧ ((new .empty {} "").run xs).state.hover = none ∧
        lastShowsHover ((new .empty {} "").heard [] xs) = true) ∧
      ((new .empty {} "").run buryingRun).state.mode = .enabled ∧
        ((new .empty {} "").run buryingRun).state.hover = none ∧
        lastShowsHover ((new .empty {} "").heard [] buryingRun) = true := by
  decide +kernel

end Editor

end InPlace

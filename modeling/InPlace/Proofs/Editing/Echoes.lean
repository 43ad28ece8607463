import InPlace.Proofs.Editing.Offers
import InPlace.Proofs.Messages.Trust

/-!
# Messages that come back

All that an editor posts, whatever it is asked to do, are notices. So whoever sends a message of an editor back to it,
under the tag of the editor, of the host or under any other, does not make the editor do anything.

Main statements: `posts_run` and `Envelope.read_and_echo`.
-/

namespace InPlace

open Headless (Document)

theorem Notice.kind_not_mem (n : Notice) : n.kind ∉ Command.kinds := by
  cases n <;> simp [kind, Command.kinds]

/-- What is sent under the kind of a notice is never acted on. -/
theorem TrustPolicy.accept_of_notice {data : Json} {n : Notice} (h : data.get? "type" = some (.str n.kind))
    (policy : TrustPolicy) (fromParent : Bool) : ∃ r, policy.accept data fromParent = .error r := by
  cases accepted : policy.accept data fromParent with
  | error r => exact ⟨r, rfl⟩
  | ok c =>
    obtain ⟨kind, payload, authentic, decoded⟩ := accept_eq_ok_iff.1 accepted
    cases h.symm.trans authentic.type
    rw [Command.decode_unknown_iff.2 n.kind_not_mem] at decoded
    cases decoded

/-- The message is one of an editor. -/
def Envelope.IsNotice (m : Envelope) : Prop :=
  ∃ n source, m = ofNotice n source

theorem Envelope.isNotice_ofNotice (n : Notice) (source : String) : (ofNotice n source).IsNotice :=
  ⟨n, source, rfl⟩

namespace Editor

open Envelope (IsNotice isNotice_ofNotice)

/-- Everything that was sent is a notice. -/
def Posts (e : HeadlessEditor) : Prop :=
  ∀ m ∈ e.page.outbox.sent, m.IsNotice

section

variable {e e' : HeadlessEditor}

/-- What is sent beyond is a notice, so all that was posted is. -/
theorem Posts.of_sends (h : Posts e) (sends : Sends IsNotice e e') : Posts e' := by
  obtain ⟨ms, hms, notices⟩ := sends
  intro m hm
  rw [hms] at hm
  rcases List.mem_append.1 hm with before | new
  · exact h m before
  · exact notices m new

theorem Posts.of_only {as : List Aspect} (h : Posts e) (only : Only as e e') (ha : .outbox ∉ as) : Posts e' :=
  h.of_sends (.of_only only ha)

theorem posts_tell (n : Notice) (h : Posts e) : Posts (e.tell n) :=
  h.of_sends (sends_tell (isNotice_ofNotice n _))

theorem posts_tellAbout (n : NodeId) (detail : Bool) (notice : Descriptor → Notice) (h : Posts e) :
    Posts (e.tellAbout n detail notice) :=
  h.of_sends (sends_tellAbout (isNotice_ofNotice _ _))

theorem posts_announce (h : Posts e) : Posts e.announce := by
  rcases announce_cases e with ⟨-, heq⟩ | ⟨-, heq⟩ | ⟨-, -, heq⟩
  · rwa [heq]
  · rw [heq]
    exact h.of_only (log_only e _ _ _) (by decide)
  · rw [heq]
    exact posts_tell _ (h.of_only (readied_only e) (by decide))

theorem posts_endEdit (commit : Bool) (h : Posts e) : Posts (e.endEdit commit) :=
  h.of_sends (sends_report fun _ _ _ => isNotice_ofNotice _ _)

theorem posts_beginEdit (n : NodeId) (h : Posts e) : Posts (e.beginEdit n) := by
  rcases beginEdit_cases e n with ⟨page, marked, heq⟩ | ⟨fault, heq⟩
  · have begun := (marked_only marked).trans (opened_only (e.marked n page) n
      (e.page.document.textContent n) (e.metadata n).1.identity)
    rw [heq, openEdit_eq]
    exact posts_tellAbout n true _ (posts_tellAbout n false _ (h.of_only begun (by decide)))
  · rw [heq]
    exact h.of_only (unmarked_only e n fault) (by decide)

theorem posts_input (n : NodeId) (h : Posts e) : Posts (e.input n) := by
  rcases input_cases e n with heq | ⟨s, -, -, heq⟩
  · rwa [heq]
  · rw [heq]
    exact posts_tell _ h

theorem posts_enter (m : EditMode) (h : Posts e) : Posts (e.enter m) :=
  posts_tell _ (h.of_only (mode_only e m) (by decide))

/-- Every piece of the operations sends notices only. -/
theorem posts_kept : Kept Posts where
  aside only h := h.of_only only (by decide)
  tell _ := posts_tell _
  announce := posts_announce
  releaseSelection h := h.of_only (releaseSelection_only _) (by decide)
  select _ h := h.of_only (select_only _ _) (by decide)
  dropped _ _ removed h := h.of_only (dropped_only removed) (by decide)
  endEdit := posts_endEdit
  beginEdit n _ := posts_beginEdit n
  input := posts_input
  enable := posts_enter .enabled
  disable _ := posts_enter .disabled
  save _ h := h.of_only (mode_only _ .saving) (by decide)

/-- An editor posts notices and nothing else, whatever happens. -/
theorem posts_step (x : Step) (h : Posts e) : Posts (e.step x) := by
  cases x with
  | page x => exact h.of_only (edit_only e x) (by simp)
  | clock time => exact h.of_only (clock_only e time) (by decide)
  | channel failing => exact h.of_only (channel_only e failing) (by decide)
  | operate o => exact posts_kept.operate o h

end

/-- Everything that is sent in a run is a notice. -/
theorem posts_run (d : Document) (config : EditorConfig) (time : String) (xs : List Step) :
    Posts ((new d config time).run xs) :=
  run_induction (P := Posts) (fun _ h => absurd h List.not_mem_nil) fun x _ _ => posts_step x

end Editor

namespace Envelope

/-- A notice that comes back is not acted on, whatever tag it has by then. -/
theorem IsNotice.refused {m : Envelope} (h : m.IsNotice) (tag : Option String) (policy : TrustPolicy)
    (fromParent : Bool) : ∃ r, policy.accept { m with source := tag }.toJson fromParent = .error r := by
  obtain ⟨n, source, rfl⟩ := h
  refine TrustPolicy.accept_of_notice (n := n) ?_ policy fromParent
  exact (ofJson?_eq_some_iff.1 (ofJson?_toJson _)).2.1

/-- Envelopes are exactly the values of their form, and what is read from one is its type, payload and tag, whatever
else is in it. What was written is read back. Of the messages that were posted in a run, none makes an editor do
anything when it comes back, under whatever tag and to an editor that trusts whatever tag. -/
theorem read_and_echo :
    (∀ data, (∃ e, ofJson? data = some e) ↔ HasForm data) ∧
    (∀ data e, ofJson? data = some e → data.get? "type" = some (.str e.kind) ∧
      e.payload = (data.get? "payload").getD .null ∧ e.source = (tag? data).bind Json.str?) ∧
    (∀ fields others : List (String × Json),
      (∀ k ∈ ["type", "payload", "source", "sourceTag"], Json.lookup k fields = Json.lookup k others) →
        ofJson? (.obj fields) = ofJson? (.obj others)) ∧
    (∀ e : Envelope, ofJson? e.toJson = some e) ∧
    (∀ (n : Notice) (source : String) (tag : Option String) (policy : TrustPolicy) (fromParent : Bool),
      ∃ r, policy.accept { ofNotice n source with source := tag }.toJson fromParent = .error r) ∧
    ∀ (d : Document) (config : EditorConfig) (time : String) (xs : List Step),
      ∀ m ∈ ((Editor.new d config time).run xs).page.outbox.sent,
        ∀ (tag : Option String) (policy : TrustPolicy) (fromParent : Bool),
          ∃ r, policy.accept { m with source := tag }.toJson fromParent = .error r := by
  refine ⟨fun data => ⟨?_, fun form => ?_⟩, fun data e h => (ofJson?_eq_some_iff.1 h).2,
    fun _ _ => ofJson?_congr, ofJson?_toJson, fun n source => (isNotice_ofNotice n source).refused, ?_⟩
  · rintro ⟨e, h⟩
    exact (ofJson?_eq_some_iff.1 h).1
  · obtain ⟨kind, typed⟩ := form.typed
    exact ⟨⟨kind, _, _⟩, ofJson?_eq_some_iff.2 ⟨form, typed, rfl, rfl⟩⟩
  · exact fun d config time xs m hm => (Editor.posts_run d config time xs m hm).refused

/-- A command whose tag is null, with a field that means nothing, and the messages of a page that has something to
edit, sent back to it as if they were the host's. -/
theorem read_and_echo_ready :
    let data : Json := .obj [("sourceTag", .null), ("type", .str "DELETE_ELEMENT"), ("version", .int 2)]
    let page := (Editor.new .empty {} "").run
      [.page (.appendIdentified 0 "h1" "a.tsx:1:0"), .operate .contentChanged]
    (∃ e, ofJson? data = some e ∧ e.kind = "DELETE_ELEMENT" ∧ e.source = none) ∧ page.page.outbox.sent.length = 1 ∧
      ∀ m ∈ page.page.outbox.sent, ∃ r,
        TrustPolicy.accept {} { m with source := some hostTag }.toJson true = .error r := by
  intro data page
  obtain ⟨accepts, reads, -, -, -, echo⟩ := read_and_echo
  have form : HasForm data := by
    refine ⟨rfl, ⟨"DELETE_ELEMENT", rfl⟩, .inl rfl, ?_⟩
    rintro tag ⟨⟩
    exact .inl rfl
  obtain ⟨e, he⟩ := (accepts data).2 form
  obtain ⟨kind, -, source⟩ := reads data e he
  have delete : "DELETE_ELEMENT" = e.kind := Json.str.inj (Option.some.inj kind)
  exact ⟨⟨e, he, delete.symm, source⟩, by decide +kernel,
    fun m hm => echo _ _ _ _ m hm (some hostTag) {} true⟩

end Envelope

end InPlace

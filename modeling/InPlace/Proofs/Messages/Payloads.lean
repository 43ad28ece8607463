import InPlace.Editing.Editor
import InPlace.Messages.Envelope
import InPlace.Proofs.Json.Fields

/-!
# Payloads that are read back

A host that reads the payload of a notice as what notices of this kind carry gets exactly what the editor sent, so
that two notices with the same kind and payload are the same. The payload of a begun edit is a descriptor with the
state among its fields; nothing in it is lost or hidden by that field, and no report of an edit that ended looks
like it, whatever state the report has.

Main statements: `Descriptor.ofJson?_ofFields`, `Notice.read?_payload` and `Notice.reads_payload`.
-/

namespace InPlace

open Json (exists_record?_ofFields required?_of_lookup nullable?_ofOption nullable?_map str?_str bool?_bool
  natBelow?_ofNat float?_ofFloat texts?_ofTexts)

/-! ## Parts of payloads -/

/-- An identity is read back from its value. -/
theorem Identity.ofJson?_toJson (i : Identity) : Identity.ofJson? i.toJson = some i := by
  obtain ⟨fs, record, found⟩ := exists_record?_ofFields ["id", "filePath", "line", "column"] 4
    [("id", .str i.raw), ("filePath", .str i.path), ("line", .ofNat i.line.toNat),
      ("column", .ofNat i.column.toNat)]
  have raw : Json.required? Json.str? "id" fs = some i.raw :=
    required?_of_lookup (by simp [found]) (str?_str _)
  have path : Json.required? Json.str? "filePath" fs = some i.path :=
    required?_of_lookup (by simp [found]) (str?_str _)
  have line : Json.required? (Json.natBelow? UInt32.size) "line" fs = some i.line.toNat :=
    required?_of_lookup (by simp [found]) (natBelow?_ofNat i.line.toNat_lt)
  have column : Json.required? (Json.natBelow? UInt32.size) "column" fs = some i.column.toNat :=
    required?_of_lookup (by simp [found]) (natBelow?_ofNat i.column.toNat_lt)
  unfold Identity.ofJson?
  simp only [Option.bind_eq_bind, Option.bind_eq_some_iff]
  exact ⟨fs, record, _, raw, _, path, _, line, _, column, by simp⟩

theorem Identity.toJson_ne_null (i : Identity) : i.toJson ≠ .null := by
  rintro ⟨⟩

/-- A place of finite numbers. -/
structure Rect.Finite (r : Rect) : Prop where
  x : r.x.isFinite = true
  y : r.y.isFinite = true
  width : r.width.isFinite = true
  height : r.height.isFinite = true

/-- A rectangle with finite numbers is read back from its value. -/
theorem Rect.ofJson?_toJson {r : Rect} (h : r.Finite) : Rect.ofJson? r.toJson = some r := by
  obtain ⟨fs, record, found⟩ := exists_record?_ofFields ["x", "y", "width", "height"] 4
    [("x", .ofFloat r.x), ("y", .ofFloat r.y), ("width", .ofFloat r.width), ("height", .ofFloat r.height)]
  have x : Json.required? Json.float? "x" fs = some r.x :=
    required?_of_lookup (by simp [found]) (float?_ofFloat h.x)
  have y : Json.required? Json.float? "y" fs = some r.y :=
    required?_of_lookup (by simp [found]) (float?_ofFloat h.y)
  have width : Json.required? Json.float? "width" fs = some r.width :=
    required?_of_lookup (by simp [found]) (float?_ofFloat h.width)
  have height : Json.required? Json.float? "height" fs = some r.height :=
    required?_of_lookup (by simp [found]) (float?_ofFloat h.height)
  unfold Rect.ofJson?
  simp only [Option.bind_eq_bind, Option.bind_eq_some_iff]
  exact ⟨fs, record, _, x, _, y, _, width, _, height, rfl⟩

theorem Rect.toJson_ne_null (r : Rect) : r.toJson ≠ .null := by
  rintro ⟨⟩

theorem EditMode.ofJson?_text (m : EditMode) : EditMode.ofJson? (.str m.text) = .ok m := by
  cases m <;> rfl

theorem EditState.ofJson?_toJson (s : EditState) : EditState.ofJson? s.toJson = some s := by
  cases s <;> rfl

/-! ## Descriptors -/

/-- A descriptor as an editor holds it: its styles are a map, in the order of their names, and its place is one of
finite numbers. -/
structure Descriptor.Sendable (d : Descriptor) : Prop where
  styles : ∀ s, d.styles = some s → Json.Ordered s
  geometry : ∀ r, d.geometry = some r → r.Finite

/-- The names of the fields of a descriptor. -/
def Descriptor.names : List String :=
  ["identity", "displayName", "tagName", "textContent", "isTextEditable", "canEditStyles", "styles", "geometry"]

/-- A descriptor is read back, also with other fields behind its own. -/
theorem Descriptor.ofJson?_ofFields {d : Descriptor} (h : d.Sendable) (more : List (String × Json))
    (other : ∀ k ∈ names, Json.lookup k more.reverse = none) :
    Descriptor.ofJson? (.ofFields (d.fields ++ more)) = some d := by
  obtain ⟨fs, record, appended⟩ := exists_record?_ofFields names 6 (d.fields ++ more)
  -- fields behind those of a descriptor have other keys, so each of its own is found
  have found : ∀ {k : String} {j : Option Json}, k ∈ names → Json.lookup k d.fields.reverse = j →
      Json.lookup k fs = j := by
    rintro k j hk rfl
    rw [appended, List.reverse_append, Json.lookup_append, other k hk, Option.none_or]
  have identity : Json.nullable? Identity.ofJson? "identity" fs = some d.identity :=
    nullable?_ofOption (found (by decide) (by simp [fields])) (fun i _ => i.ofJson?_toJson) Identity.toJson_ne_null
  have displayName : Json.required? Json.str? "displayName" fs = some d.displayName :=
    required?_of_lookup (found (by decide) (by simp [fields])) (str?_str _)
  have tagName : Json.required? Json.str? "tagName" fs = some d.tagName :=
    required?_of_lookup (found (by decide) (by simp [fields])) (str?_str _)
  have textContent : Json.required? Json.str? "textContent" fs = some d.textContent :=
    required?_of_lookup (found (by decide) (by simp [fields])) (str?_str _)
  have isTextEditable : Json.required? Json.bool? "isTextEditable" fs = some d.isTextEditable :=
    required?_of_lookup (found (by decide) (by simp [fields])) (bool?_bool _)
  have canEditStyles : Json.required? Json.bool? "canEditStyles" fs = some d.canEditStyles :=
    required?_of_lookup (found (by decide) (by simp [fields])) (bool?_bool _)
  have styles : Json.nullable? Json.texts? "styles" fs = some d.styles :=
    nullable?_map (f := Json.ofTexts) (found (by decide) (by simp [fields]))
      (fun s hs => texts?_ofTexts (h.styles s hs)) (by rintro s ⟨⟩)
  have geometry : Json.nullable? Rect.ofJson? "geometry" fs = some d.geometry :=
    nullable?_map (found (by decide) (by simp [fields]))
      (fun r hr => Rect.ofJson?_toJson (h.geometry r hr)) Rect.toJson_ne_null
  unfold Descriptor.ofJson?
  simp only [Option.bind_eq_bind, Option.bind_eq_some_iff]
  exact ⟨fs, record, _, identity, _, displayName, _, tagName, _, textContent, _, isTextEditable, _, canEditStyles,
    _, styles, _, geometry, rfl⟩

theorem Descriptor.ofJson?_toJson {d : Descriptor} (h : d.Sendable) : Descriptor.ofJson? d.toJson = some d := by
  have plain := ofJson?_ofFields h [] fun _ _ => rfl
  rwa [List.append_nil] at plain

theorem Descriptor.toJson_ne_null (d : Descriptor) : d.toJson ≠ .null := by
  rintro ⟨⟩

/-- What an editor tells of an element is in the order in which it is sent. -/
theorem Descriptor.sendable_ofElement {P N : Type} [Page P N] {page : P} {n : N} {m : Metadata} {detail : Bool}
    (h : (Page.rect page n).Finite) : (ofElement page n m detail).Sendable where
  styles := by
    intro s hs
    cases detail with
    | false => cases hs
    | true =>
      cases hs
      have named : describedStyles.Pairwise (· < ·) := by decide
      exact List.pairwise_map.2 named
  geometry := by
    intro r hr
    cases detail with
    | false => cases hr
    | true =>
      cases hr
      exact h

/-! ## Records of notices -/

/-- A count of 64 bits is read back with the rest. -/
theorem Readiness.ofJson?_toJson {r : Readiness} (h : r.count < UInt64.size) :
    Readiness.ofJson? r.toJson = some r := by
  obtain ⟨fs, record, found⟩ := exists_record?_ofFields ["count", "url", "timestamp"] 3
    ([("count", .ofNat r.count)] ++ Json.present "url" Json.str r.url ++ [("timestamp", .str r.timestamp)])
  have count : Json.required? (Json.natBelow? UInt64.size) "count" fs = some r.count :=
    required?_of_lookup (by simp [found]) (natBelow?_ofNat h)
  have url : Json.nullable? Json.str? "url" fs = some r.url :=
    nullable?_map (by simp [found]) (fun s _ => str?_str s) (by rintro s ⟨⟩)
  have timestamp : Json.required? Json.str? "timestamp" fs = some r.timestamp :=
    required?_of_lookup (by simp [found]) (str?_str _)
  unfold Readiness.ofJson?
  simp only [Option.bind_eq_bind, Option.bind_eq_some_iff]
  exact ⟨fs, record, _, count, _, url, _, timestamp, rfl⟩

/-- The end of an edit is read back from its value. -/
theorem EditOutcome.ofJson?_toJson (o : EditOutcome) : EditOutcome.ofJson? o.toJson = some o := by
  obtain ⟨fs, record, found⟩ := exists_record?_ofFields ["state", "text", "originalText", "metadata", "changed"] 5
    [("state", o.state.toJson), ("text", .str o.text), ("originalText", .str o.openingText),
      ("metadata", .ofOption Identity.toJson o.metadata), ("changed", .bool o.changed)]
  have state : Json.required? EditState.ofJson? "state" fs = some o.state :=
    required?_of_lookup (by simp [found]) o.state.ofJson?_toJson
  have text : Json.required? Json.str? "text" fs = some o.text :=
    required?_of_lookup (by simp [found]) (str?_str _)
  have openingText : Json.required? Json.str? "originalText" fs = some o.openingText :=
    required?_of_lookup (by simp [found]) (str?_str _)
  have metadata : Json.nullable? Identity.ofJson? "metadata" fs = some o.metadata :=
    nullable?_ofOption (by simp [found]) (fun i _ => i.ofJson?_toJson) Identity.toJson_ne_null
  have changed : Json.required? Json.bool? "changed" fs = some o.changed :=
    required?_of_lookup (by simp [found]) (bool?_bool _)
  unfold EditOutcome.ofJson?
  simp only [Option.bind_eq_bind, Option.bind_eq_some_iff]
  exact ⟨fs, record, _, state, _, text, _, openingText, _, metadata, _, changed, rfl⟩

theorem TextUpdate.ofJson?_toJson (u : TextUpdate) : TextUpdate.ofJson? u.toJson = some u := by
  obtain ⟨fs, record, found⟩ := exists_record?_ofFields ["text", "metadata"] 2
    [("text", .str u.text), ("metadata", .ofOption Identity.toJson u.metadata)]
  have text : Json.required? Json.str? "text" fs = some u.text :=
    required?_of_lookup (by simp [found]) (str?_str _)
  have metadata : Json.nullable? Identity.ofJson? "metadata" fs = some u.metadata :=
    nullable?_ofOption (by simp [found]) (fun i _ => i.ofJson?_toJson) Identity.toJson_ne_null
  unfold TextUpdate.ofJson?
  simp only [Option.bind_eq_bind, Option.bind_eq_some_iff]
  exact ⟨fs, record, _, text, _, metadata, rfl⟩

/-! ## Notices -/

namespace Notice

/-- A notice as an editor holds it: a count has 64 bits, and descriptors can be sent. -/
def Sendable : Notice → Prop
  | ready r => r.count < UInt64.size
  | selectionChanged d | hoverChanged d => ∀ e, d = some e → e.Sendable
  | editStarted d | openEditor d => d.Sendable
  | modeChanged _ | editEnded _ | textUpdated _ | selectionCleared => True

/-- The descriptor in a payload that may be null. -/
def descriptor? : Json → Option (Option Descriptor)
  | .null => some none
  | j => (Descriptor.ofJson? j).map some

/-- What a payload is, read as that of notices of this form, is the data of the notice. -/
def Reads (j : Json) : Notice → Prop
  | ready r => Readiness.ofJson? j = some r
  | modeChanged m => (j.get? "state").map EditMode.ofJson? = some (.ok m)
  | selectionChanged d | hoverChanged d => descriptor? j = some d
  | editStarted d | openEditor d => Descriptor.ofJson? j = some d
  | editEnded o => EditOutcome.ofJson? j = some o
  | textUpdated u => TextUpdate.ofJson? j = some u
  | selectionCleared => j = .obj []

/-- A descriptor or none is read back from its value. -/
theorem descriptor?_ofOption {d : Option Descriptor} (h : ∀ e, d = some e → e.Sendable) :
    descriptor? (.ofOption Descriptor.toJson d) = some d := by
  cases d with
  | none => rfl
  | some e =>
    rw [Json.ofOption]
    unfold descriptor?
    split
    · rename_i empty
      exact absurd empty e.toJson_ne_null
    · rw [Descriptor.ofJson?_toJson (h e rfl), Option.map_some]

/-- The payload of a begun edit is the descriptor with the state added to it. -/
theorem ofJson?_editStarted {d : Descriptor} (h : d.Sendable) :
    Descriptor.ofJson? (editStarted d).payload = some d := by
  refine Descriptor.ofJson?_ofFields h _ fun k hk => ?_
  have other : ∀ l ∈ Descriptor.names, "state" ≠ l := by decide
  simp [other k hk]

/-- Every payload is read back as what it was made from. -/
theorem reads_payload_self {n : Notice} (h : n.Sendable) : n.Reads n.payload := by
  cases n with
  | ready r => exact Readiness.ofJson?_toJson h
  | modeChanged m =>
    show ((payload (modeChanged m)).get? "state").map EditMode.ofJson? = some (.ok m)
    rw [payload, Json.get?_ofFields]
    simp [EditMode.ofJson?_text]
  | selectionChanged d => exact descriptor?_ofOption h
  | hoverChanged d => exact descriptor?_ofOption h
  | editStarted d => exact ofJson?_editStarted h
  | editEnded o => exact o.ofJson?_toJson
  | textUpdated u => exact u.ofJson?_toJson
  | openEditor d => exact Descriptor.ofJson?_toJson h
  | selectionCleared => rfl

/-- No report of an edit that ended is a descriptor. -/
theorem ofJson?_editEnded (o : EditOutcome) : Descriptor.ofJson? (editEnded o).payload = none := by
  obtain ⟨fs, record, found⟩ := exists_record?_ofFields Descriptor.names 6
    [("state", o.state.toJson), ("text", .str o.text), ("originalText", .str o.openingText),
      ("metadata", .ofOption Identity.toJson o.metadata), ("changed", .bool o.changed)]
  have unnamed : Json.required? Json.str? "displayName" fs = none := by
    rw [Json.required?, found]
    rfl
  rw [Option.eq_none_iff_forall_ne_some]
  intro d hd
  unfold Descriptor.ofJson? at hd
  simp only [Option.bind_eq_bind, Option.bind_eq_some_iff] at hd
  obtain ⟨gs, hgs, _, -, name, hname, -⟩ := hd
  cases record.symm.trans hgs
  rw [unnamed] at hname
  cases hname

/-- What a host makes of a kind and a payload. What is sent under the kind of edits is the begin of one if it is a
descriptor. -/
def read? (kind : String) (j : Json) : Option Notice :=
  match kind with
  | "READY" => (Readiness.ofJson? j).map ready
  | "EDIT_MODE_STATE" =>
    match (j.get? "state").map EditMode.ofJson? with
    | some (.ok m) => some (modeChanged m)
    | _ => none
  | "ELEMENT_CLICKED" => (descriptor? j).map selectionChanged
  | "ELEMENT_HOVERED" => (descriptor? j).map hoverChanged
  | "INLINE_EDIT_STATE" =>
    ((Descriptor.ofJson? j).map editStarted).or ((EditOutcome.ofJson? j).map editEnded)
  | "ELEMENT_TEXT_UPDATED" => (TextUpdate.ofJson? j).map textUpdated
  | "OPEN_EDITOR_POPOVER" => (Descriptor.ofJson? j).map openEditor
  | "SELECTION_CLEARED" => some selectionCleared
  | _ => none

/-- A notice can be told from its kind and its payload. -/
theorem read?_payload {n : Notice} (h : n.Sendable) : read? n.kind n.payload = some n := by
  have reads := reads_payload_self h
  cases n with
  | editEnded o =>
    simp only [Reads] at reads
    simp [read?, kind, reads, ofJson?_editEnded]
  | _ =>
    simp only [Reads] at reads
    simp [read?, kind, reads]

/-- The payload of a message, read as what notices of this form carry, is the data the notice was made from, and no
two notices have the same kind and payload. -/
theorem reads_payload (n : Notice) (source : String) (h : n.Sendable) :
    n.Reads (Envelope.ofNotice n source).payload ∧
      ∀ (m : Notice) (source' : String), m.Sendable →
        (Envelope.ofNotice m source').kind = (Envelope.ofNotice n source).kind →
        (Envelope.ofNotice m source').payload = (Envelope.ofNotice n source).payload → m = n := by
  refine ⟨reads_payload_self h, ?_⟩
  intro m source' hm kinds payloads
  have read : read? m.kind m.payload = read? n.kind n.payload := congr (congrArg read? kinds) payloads
  rw [read?_payload hm, read?_payload h] at read
  exact Option.some.inj read

/-- A begun edit with all that a descriptor may hold, and a report of the same kind that has the same state. -/
theorem reads_payload_started :
    let d : Descriptor := ⟨some (.ofPlace "a.tsx" 3 2), "Title", "h1", "Hi", true, true,
      some [("color", ""), ("margin", "0")], some ⟨0.5, -0.0, 1280, 0.1⟩⟩
    let o : EditOutcome := ⟨.started, "Hi", "Hi", some (.ofPlace "a.tsx" 3 2), false⟩
    (editStarted d).Sendable ∧ (editEnded o).Sendable ∧
      Descriptor.ofJson? (Envelope.ofNotice (editStarted d) "page").payload = some d ∧
      (Envelope.ofNotice (editEnded o) "page").kind = (Envelope.ofNotice (editStarted d) "page").kind ∧
      (Envelope.ofNotice (editEnded o) "page").payload ≠ (Envelope.ofNotice (editStarted d) "page").payload := by
  intro d o
  have sendable : (editStarted d).Sendable := by
    refine ⟨?_, ?_⟩
    · rintro s ⟨⟩
      decide
    · rintro r ⟨⟩
      exact ⟨by decide, by decide, by decide, by decide⟩
  obtain ⟨reads, distinct⟩ := reads_payload (editStarted d) "page" sendable
  refine ⟨sendable, trivial, reads, rfl, fun same => ?_⟩
  cases distinct (editEnded o) "page" trivial rfl same

end Notice

end InPlace

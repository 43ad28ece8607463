import InPlace.Messages.Command
import InPlace.Proofs.Json.Fields

/-!
# The language of commands

Exactly which kinds and payloads are commands. A payload that has the form that its kind asks for is one, whatever
else is in it: entries that are no style values and items that are no class names are passed over, and the others keep
their order. A payload of another form is malformed, and only a kind that is none of the six is unknown. Every command
that names its classes can be asked for.

Main statements: `decode_isOk_iff`, `decode_tidyStyles`, `decode_tidyClasses`, `decode_payload` and `decode_language`.
-/

namespace InPlace

/-! ## Choices of a mode -/

/-- A choice is a name, or an object with one field. -/
theorem Json.choiceParts?_eq_ok_iff {j under : Json} {name : String} :
    choiceParts? j = .ok (name, under) ↔ j = .str name ∧ under = .null ∨ j = .obj [(name, under)] := by
  unfold choiceParts?
  split
  · simp [eq_comm]
  · simp
  · rename_i fields several
    have other : fields ≠ [(name, under)] := several name under
    simp [other]
  · rename_i noText _ noObject
    have text : ¬ (j = .str name ∧ under = .null) := fun h => noText name h.1
    have object : j ≠ .obj [(name, under)] := noObject _
    simp [text, object]

/-- A name is chosen by itself or by a field without a value. -/
theorem Json.choice?_eq_ok_iff {names : List String} {j : Json} {n : String} :
    choice? names j = .ok n ↔ n ∈ names ∧ (j = .str n ∨ j = .obj [(n, .null)]) := by
  unfold choice?
  constructor
  · intro h
    split at h
    · cases h
    · rename_i name under parts
      split at h
      · rename_i known
        split at h
        · cases h
          refine ⟨known, ?_⟩
          rcases choiceParts?_eq_ok_iff.1 parts with ⟨text, -⟩ | object
          · exact .inl text
          · exact .inr object
        · cases h
      · cases h
  · rintro ⟨known, rfl | rfl⟩
    · simp [choiceParts?, known]
    · simp [choiceParts?, known]

/-- The value is the name of a mode, or an object with the name as its only key and null under it. -/
def EditMode.IsChosenBy (m : EditMode) (j : Json) : Prop :=
  j = .str m.text ∨ j = .obj [(m.text, .null)]

/-- The names of modes are those that modes have. -/
theorem EditMode.mem_names_iff {n : String} : n ∈ names ↔ ∃ m : EditMode, n = m.text := by
  constructor
  · intro h
    simp only [names, List.mem_cons, List.not_mem_nil, or_false] at h
    rcases h with rfl | rfl | rfl
    · exact ⟨disabled, rfl⟩
    · exact ⟨enabled, rfl⟩
    · exact ⟨saving, rfl⟩
  · rintro ⟨m, rfl⟩
    cases m <;> decide

/-- A mode is read exactly from what chooses it. -/
theorem EditMode.ofJson?_eq_ok_iff {j : Json} {m : EditMode} : ofJson? j = .ok m ↔ m.IsChosenBy j := by
  unfold ofJson?
  constructor
  · intro h
    cases choice : Json.choice? names j with
    | error fault =>
      rw [choice] at h
      cases h
    | ok n =>
      obtain ⟨known, chosen⟩ := Json.choice?_eq_ok_iff.1 choice
      obtain ⟨k, rfl⟩ := mem_names_iff.1 known
      rw [choice, Except.map, ofText?_text] at h
      cases h
      exact chosen
  · intro h
    have chosen : Json.choice? names j = .ok m.text := Json.choice?_eq_ok_iff.2 ⟨mem_names_iff.2 ⟨m, rfl⟩, h⟩
    rw [chosen, Except.map, ofText?_text]
    rfl

namespace Command

/-! ## The payloads that are accepted -/

/-- The payload has the form that commands of this kind ask for. -/
def Accepts (kind : String) (payload : Json) : Prop :=
  match kind with
  | "SET_STATE" => ∃ j, payload.get? "state" = some j ∧ ∃ m : EditMode, m.IsChosenBy j
  | "UPDATE_TEXT_CONTENT" => ∃ s, payload.get? "text" = some (.str s)
  | "UPDATE_STYLES" | "UPDATE_CLASSES" => payload.isObject = true
  | "DELETE_ELEMENT" | "CLEAR_SELECTION" => True
  | _ => False

theorem decode_updateStyles (fields : List (String × Json)) :
    decode "UPDATE_STYLES" (.obj fields) = .ok (.updateStyles (fields.filterMap styleEntry?)) :=
  rfl

theorem decode_updateClasses {payload : Json} (h : payload.isObject = true) :
    decode "UPDATE_CLASSES" payload =
      .ok (.updateClasses ⟨classNames (payload.get? "add"), classNames (payload.get? "remove")⟩) :=
  if_pos h

/-- A message is a command exactly if its payload is accepted. -/
theorem decode_isOk_iff {kind : String} {payload : Json} :
    (∃ c, decode kind payload = .ok c) ↔ Accepts kind payload := by
  constructor
  · rintro ⟨c, h⟩
    unfold decode at h
    -- a case for each kind, in the order in which `kinds` lists them, and one for all others
    split at h
    · split at h
      · cases h
      · rename_i j state
        split at h
        · rename_i m chosen
          exact ⟨j, state, m, EditMode.ofJson?_eq_ok_iff.1 chosen⟩
        · cases h
    · split at h
      · rename_i s text
        exact ⟨s, text⟩
      · cases h
    · split at h
      · rfl
      · cases h
    · split at h
      · rename_i object
        exact object
      · cases h
    · trivial
    · trivial
    · cases h
  · intro h
    unfold Accepts at h
    split at h
    · obtain ⟨j, state, m, chosen⟩ := h
      exact ⟨.setMode m, by simp [decode, state, EditMode.ofJson?_eq_ok_iff.2 chosen]⟩
    · obtain ⟨s, text⟩ := h
      exact ⟨.updateText s, by simp [decode, text]⟩
    · cases payload with
      | obj fields => exact ⟨_, decode_updateStyles fields⟩
      | _ => cases h
    · exact ⟨_, decode_updateClasses h⟩
    · exact ⟨.deleteElement, rfl⟩
    · exact ⟨.clearSelection, rfl⟩
    · cases h

/-- A payload that is not accepted under a known kind is malformed. -/
theorem decode_malformed_iff {kind : String} {payload : Json} :
    (∃ fault, decode kind payload = .error fault ∧ fault ≠ .unknownKind) ↔
      kind ∈ kinds ∧ ¬ Accepts kind payload := by
  have known : kind ∈ kinds ↔ decode kind payload ≠ .error .unknownKind := by
    rw [ne_eq, decode_unknown_iff, not_not]
  rw [← decode_isOk_iff, known]
  cases decode kind payload with
  | ok c => simp
  | error fault => simp

/-- The wording of a fault says so. -/
theorem message_eq_malformed (kind : String) {fault : CommandFault} (h : fault ≠ .unknownKind) :
    ∃ what, fault.message kind = CommandFault.message.malformed kind what := by
  cases fault with
  | unknownKind => exact absurd rfl h
  | missingMode => exact ⟨_, rfl⟩
  | badMode fault => exact ⟨_, rfl⟩
  | textNotString => exact ⟨_, rfl⟩
  | stylesNotObject => exact ⟨_, rfl⟩
  | classesNotObject => exact ⟨_, rfl⟩

/-! ## What is passed over -/

/-- A value that a style property may get: a text or a number. -/
def isStyleValue : Json → Bool
  | .str _ | .int _ | .float _ => true
  | _ => false

/-- A style payload without the entries that are no style values. -/
def tidyStyles : Json → Json
  | .obj fields => .obj (fields.filter fun f => isStyleValue f.2)
  | j => j

theorem styleEntry?_eq_none {f : String × Json} (h : isStyleValue f.2 = false) : styleEntry? f = none := by
  obtain ⟨name, value⟩ := f
  cases value <;> first | rfl | cases h

/-- Styles that are no texts make no difference. -/
theorem decode_tidyStyles (payload : Json) :
    decode "UPDATE_STYLES" (tidyStyles payload) = decode "UPDATE_STYLES" payload := by
  cases payload with
  | obj fields =>
    have kept : (fields.filter fun f => isStyleValue f.2).filterMap styleEntry? = fields.filterMap styleEntry? := by
      rw [List.filterMap_filter]
      refine List.filterMap_congr fun f _ => ?_
      split
      · rfl
      · rename_i junk
        exact (styleEntry?_eq_none (by simpa using junk)).symm
    rw [tidyStyles, decode_updateStyles, decode_updateStyles, kept]
  | _ => rfl

/-- An item that is the name of a class: a text that is not empty. -/
def isClassName : Json → Bool
  | .str s => !s.isEmpty
  | _ => false

/-- The items of a list; none of what is no list. -/
def itemsOf : Option Json → List Json
  | some (.arr items) => items
  | _ => []

/-- The class names in a list are its items that are class names, in their order. -/
theorem map_str_classNames (j : Option Json) : (classNames j).map Json.str = (itemsOf j).filter isClassName := by
  have names : ∀ items : List Json, ((items.filterMap Json.str?).filter fun s => !s.isEmpty).map Json.str =
      items.filter isClassName := by
    intro items
    induction items with
    | nil => rfl
    | cons item items ih =>
      cases item with
      | str s =>
        rw [List.filterMap_cons_some (Json.str?_str s), List.filter_cons, List.filter_cons,
          apply_ite (List.map Json.str), List.map_cons, ih]
        rfl
      | _ =>
        rw [List.filterMap_cons_none rfl, ih]
        rfl
  cases j with
  | none => rfl
  | some j =>
    cases j with
    | arr items => exact names items
    | _ => rfl

/-- An array without what is no class name. -/
def tidyItems : Json → Json
  | .arr items => .arr (items.filter isClassName)
  | j => j

/-- A class payload without the items of its two lists that are no class names. -/
def tidyClasses : Json → Json
  | .obj fields => .obj (fields.map fun f => if f.1 = "add" ∨ f.1 = "remove" then (f.1, tidyItems f.2) else f)
  | j => j

theorem get?_tidyClasses {k : String} (h : k = "add" ∨ k = "remove") (payload : Json) :
    (tidyClasses payload).get? k = (payload.get? k).map tidyItems := by
  cases payload with
  | obj fields =>
    show Json.lookup k (fields.map _) = (Json.lookup k fields).map tidyItems
    induction fields with
    | nil => rfl
    | cons f fields ih =>
      obtain ⟨l, v⟩ := f
      by_cases same : l = k
      · subst same
        simp [h]
      · by_cases listed : l = "add" ∨ l = "remove" <;> simp [listed, same, ih]
  | _ => rfl

theorem classNames_tidyItems (j : Option Json) : classNames (j.map tidyItems) = classNames j := by
  -- class names are told apart by the items that they come from, and those are the same
  have injective : Function.Injective (List.map Json.str) := List.map_injective_iff.2 fun _ _ => Json.str.inj
  apply injective
  rw [map_str_classNames, map_str_classNames]
  cases j with
  | none => rfl
  | some j =>
    cases j with
    | arr items => simp [tidyItems, itemsOf]
    | _ => rfl

/-- Items that are no class names make no difference. -/
theorem decode_tidyClasses (payload : Json) :
    decode "UPDATE_CLASSES" (tidyClasses payload) = decode "UPDATE_CLASSES" payload := by
  cases payload with
  | obj fields =>
    rw [decode_updateClasses rfl, decode_updateClasses rfl, get?_tidyClasses (.inl rfl), get?_tidyClasses (.inr rfl),
      classNames_tidyItems, classNames_tidyItems]
  | _ => rfl

/-! ## Asking for a command -/

/-- The payload that asks for a command. -/
def payload : Command → Json
  | setMode m => .obj [("state", .str m.text)]
  | updateText text => .obj [("text", .str text)]
  | updateStyles styles => .obj (styles.map fun f => (f.1, .str f.2))
  | updateClasses changes =>
    .obj [("add", .arr (changes.add.map Json.str)), ("remove", .arr (changes.remove.map Json.str))]
  | deleteElement | clearSelection => .null

/-- The classes of a command have names. -/
def NamesClasses : Command → Prop
  | updateClasses changes => ∀ s ∈ changes.add ++ changes.remove, s ≠ ""
  | _ => True

/-- The styles of a command are a map, in the order of their names. -/
def MapsStyles : Command → Prop
  | updateStyles styles => Json.Ordered styles
  | _ => True

theorem classNames_map_str {names : List String} (h : ∀ s ∈ names, s ≠ "") :
    classNames (some (.arr (names.map Json.str))) = names := by
  have texts : (names.map Json.str).filterMap Json.str? = names := by
    rw [List.filterMap_map]
    exact List.filterMap_some
  rw [classNames, texts]
  exact List.filter_eq_self.2 fun s hs => by simpa using h s hs

/-- Every command that names its classes can be asked for. -/
theorem decode_payload {c : Command} (h : c.NamesClasses) : decode c.kind c.payload = .ok c := by
  cases c with
  | setMode m => cases m <;> rfl
  | updateText text => rfl
  | updateStyles styles =>
    have entries : (styles.map fun f => (f.1, Json.str f.2)).filterMap styleEntry? = styles := by
      rw [List.filterMap_map]
      exact List.filterMap_some
    rw [kind, payload, decode_updateStyles, entries]
  | updateClasses changes =>
    obtain ⟨add, remove⟩ := changes
    obtain ⟨added, removed⟩ := List.forall_mem_append.1 h
    have first : classNames ((payload (updateClasses ⟨add, remove⟩)).get? "add") = add := classNames_map_str added
    have second : classNames ((payload (updateClasses ⟨add, remove⟩)).get? "remove") = remove :=
      classNames_map_str removed
    rw [kind, decode_updateClasses rfl, first, second]
  | deleteElement => rfl
  | clearSelection => rfl

/-- An object with its keys in order stays as it is if its values do. -/
theorem sorted_obj {fields : List (String × Json)} (h : Json.Ordered fields)
    (values : Json.sortedFields fields = fields) : (Json.obj fields).sorted = .obj fields := by
  rw [Json.sorted, values, Json.ofFields, Json.sortFields_of_ordered h]

theorem sorted_str (s : String) : (Json.str s).sorted = .str s := by
  simp [Json.sorted]

theorem sortedFields_map_str (texts : List (String × String)) :
    Json.sortedFields (texts.map fun f => (f.1, Json.str f.2)) = texts.map fun f => (f.1, Json.str f.2) := by
  induction texts with
  | nil => rfl
  | cons f texts ih => rw [List.map_cons, Json.sortedFields, ih, sorted_str]

theorem sortedItems_map_str (names : List String) : Json.sortedItems (names.map Json.str) = names.map Json.str := by
  induction names with
  | nil => rfl
  | cons s names ih => rw [List.map_cons, Json.sortedItems, ih, sorted_str]

/-- The payload that asks for a command is a value as values arrive, with every key once and in order. -/
theorem sorted_payload {c : Command} (h : c.MapsStyles) : c.payload.sorted = c.payload := by
  cases c with
  | setMode m => exact sorted_obj (List.pairwise_singleton _ _) rfl
  | updateText text => exact sorted_obj (List.pairwise_singleton _ _) rfl
  | updateStyles styles => exact sorted_obj (List.pairwise_map.2 h) (sortedFields_map_str styles)
  | updateClasses changes =>
    have ordered : ∀ a b : Json, Json.Ordered [("add", a), ("remove", b)] := fun _ _ =>
      List.pairwise_pair.2 (show "add" < "remove" by decide)
    refine sorted_obj (ordered _ _) ?_
    simp only [Json.sortedFields, Json.sorted, sortedItems_map_str]
  | deleteElement => rfl
  | clearSelection => rfl

/-- A kind that is none of the six is unknown, a payload that does not have the form that its kind asks for is
malformed, and all else are commands. What is neither a style value nor the name of a class makes no difference, and
the names of classes keep their order. Every command that names its classes is what its payload says, which is a value
with every key once and in order. -/
theorem decode_language :
    (∀ kind payload, decode kind payload = .error .unknownKind ↔ kind ∉ kinds) ∧
    (∀ kind payload, (∃ c, decode kind payload = .ok c) ↔ Accepts kind payload) ∧
    (∀ kind payload, kind ∈ kinds ∧ ¬ Accepts kind payload ↔
      ∃ fault, decode kind payload = .error fault ∧ fault ≠ .unknownKind ∧
        ∃ what, fault.message kind = CommandFault.message.malformed kind what) ∧
    (∀ payload, decode "UPDATE_STYLES" (tidyStyles payload) = decode "UPDATE_STYLES" payload) ∧
    (∀ payload, decode "UPDATE_CLASSES" (tidyClasses payload) = decode "UPDATE_CLASSES" payload) ∧
    (∀ payload changes, decode "UPDATE_CLASSES" payload = .ok (.updateClasses changes) →
      changes.add.map Json.str = (itemsOf (payload.get? "add")).filter isClassName ∧
      changes.remove.map Json.str = (itemsOf (payload.get? "remove")).filter isClassName) ∧
    (∀ c : Command, c.NamesClasses → decode c.kind c.payload = .ok c) ∧
    ∀ c : Command, c.MapsStyles → c.payload.sorted = c.payload := by
  refine ⟨fun _ _ => decode_unknown_iff, fun _ _ => decode_isOk_iff, fun kind payload => ?_, decode_tidyStyles,
    decode_tidyClasses, fun payload changes h => ?_, fun _ => decode_payload, fun _ => sorted_payload⟩
  · rw [← decode_malformed_iff]
    constructor
    · rintro ⟨fault, failed, known⟩
      exact ⟨fault, failed, known, message_eq_malformed kind known⟩
    · rintro ⟨fault, failed, known, -⟩
      exact ⟨fault, failed, known⟩
  · have object : payload.isObject = true := by
      cases payload with
      | obj fields => rfl
      | _ => cases h
    rw [decode_updateClasses object] at h
    cases h
    exact ⟨map_str_classNames _, map_str_classNames _⟩

/-- A mode as the only key of an object, and lists of classes with items that are passed over. -/
theorem decode_language_lenient :
    let state : Json := .obj [("state", .obj [("saving", .null)])]
    let classes : Json := .obj [("add", .arr [.str "b", .str "", .int 3, .str "a"]), ("remove", .str "c")]
    (∃ c, decode "SET_STATE" state = .ok c) ∧
      (∃ fault, decode "SET_STATE" classes = .error fault ∧ fault ≠ .unknownKind) ∧
      decode "UPDATE_CLASSES" (.obj [("add", .arr [.str "b", .str "a"]), ("remove", .str "c")]) =
        decode "UPDATE_CLASSES" classes ∧
      decode "UPDATE_CLASSES" (payload (.updateClasses ⟨["b", "a"], []⟩)) = .ok (.updateClasses ⟨["b", "a"], []⟩) := by
  intro state classes
  obtain ⟨-, accepted, malformed, -, tidied, -, asked, -⟩ := decode_language
  have stateless : ¬ Accepts "SET_STATE" classes := by
    rintro ⟨_, ⟨⟩, -⟩
  obtain ⟨fault, failed, known, -⟩ := (malformed "SET_STATE" classes).1 ⟨by decide, stateless⟩
  have named : (updateClasses ⟨["b", "a"], []⟩).NamesClasses := by
    simp [NamesClasses]
  exact ⟨(accepted "SET_STATE" state).2 ⟨_, rfl, .saving, .inr rfl⟩, ⟨fault, failed, known⟩,
    tidied classes, asked _ named⟩

end Command

end InPlace

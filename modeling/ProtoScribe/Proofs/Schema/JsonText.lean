import ProtoScribe.Proofs.Json.Render
import ProtoScribe.Proofs.Schema.Document
import ProtoScribe.Schema.Json

/-!
# Schemas as JSON text and back

The JSON text of a schema is read as the schema, unless its arrays and objects nest deeper than a
text may (`Schema.read_jsonText`). Every list is written out, those that are empty too, so the text
of a message nests one array more than a document that leaves them out; a schema of 63 messages in
one another can be read from such a document, but not from its own text.
-/

namespace ProtoScribe

open Json (Datum Value Numeral ListWritten Deep DeepPart)
open Document (Shape Parts)

/-! ## What schemas are written as -/

namespace Json

/-- Where the keys of an object are the names in order, so are its values what it gives. -/
theorem Datum.Gives.of_keys {names : List String} {ms : List (String × Datum)}
    (hkeys : ms.map Prod.fst = names) (hnodup : names.Nodup) :
    Datum.Gives names (.object ms) (ms.map fun m => some m.2) := by
  subst hkeys
  have hlookup : (ms.map Prod.fst).map (fun name => ms.lookup name) = ms.map fun m => some m.2 := by
    induction ms with
    | nil => rfl
    | cons m ms ih =>
      obtain ⟨key, d⟩ := m
      rw [List.map_cons, List.nodup_cons] at hnodup
      have hrest : (ms.map Prod.fst).map (fun name => ((key, d) :: ms).lookup name)
          = (ms.map Prod.fst).map fun name => ms.lookup name := by
        refine List.map_congr_left fun name hname => ?_
        have hne : name ≠ key := by
          rintro rfl
          exact hnodup.1 hname
        rw [List.lookup_cons, beq_eq_false_iff_ne.mpr hne]
      rw [List.map_cons, List.map_cons, hrest, ih hnodup.2, List.lookup_cons, beq_self_eq_true]
      rfl
  rw [← hlookup]
  exact .object (hnodup.filter _)

/-- A list is written as the array of what its items are written as. -/
theorem ListWritten.map {α : Type} {written : Datum → α → Prop} {toJson : α → Value} {as : List α}
    (h : ∀ a ∈ as, written (toJson a).datum a) :
    ListWritten written (some (Value.array (as.map toJson)).datum) as := by
  rw [Value.datum, Value.datumOfItems_eq_map, List.map_map]
  exact .items (List.forall₂_map_left_iff.mpr (List.forall₂_same.mpr h))

end Json

theorem Label.written_toJson (l : Label) : l.Written (some l.toJson.datum) := by
  cases l <;> exact .word (by decide)

theorem Field.written_toJson (f : Field) : f.Written f.toJson.datum :=
  ⟨_, _, .of_keys rfl (by decide), f.label.written_toJson, Numeral.integer?_ofInt _⟩

theorem EnumValue.written_toJson (v : EnumValue) : v.Written v.toJson.datum :=
  ⟨_, .of_keys rfl (by decide), Numeral.integer?_ofInt _⟩

theorem Enum.written_toJson (e : Enum) : e.Written e.toJson.datum :=
  ⟨_, .of_keys rfl (by decide), .map fun v _ => v.written_toJson⟩

theorem Method.written_toJson (m : Method) : m.Written m.toJson.datum :=
  ⟨_, _, .of_keys rfl (by decide), .value _, .value _⟩

theorem Service.written_toJson (s : Service) : s.Written s.toJson.datum :=
  ⟨_, .of_keys rfl (by decide), .map fun m _ => m.written_toJson⟩

theorem Message.listToJson_eq_map : ∀ ms : List Message, listToJson ms = ms.map toJson
  | [] => rfl
  | m :: ms => by rw [listToJson, listToJson_eq_map ms, List.map_cons]

theorem Message.written_toJson : ∀ m : Message, m.Written m.toJson.datum
  | ⟨name, fields, enums, messages⟩ => by
    rw [toJson, listToJson_eq_map]
    exact .mk (.of_keys rfl (by decide)) (.map fun f _ => f.written_toJson)
      (.map fun e _ => e.written_toJson) (.map fun m _ => m.written_toJson)

theorem Schema.written_toJson (s : Schema) : s.Written s.toJson.datum := by
  rw [toJson, Message.listToJson_eq_map]
  exact ⟨_, _, _, .of_keys rfl (by decide), .map fun m _ => m.written_toJson,
    .map fun e _ => e.written_toJson, .map fun s _ => s.written_toJson⟩

/-! ## All of it is asked for -/

namespace Json

/-- However deep a datum nests, the shape asks for that. -/
def Asked {α : Type} (shape : Shape α) (d : Datum) : Prop :=
  ∀ depth, depth < d.nesting → Deep shape depth d

theorem exists_of_lt_nestingOfItems {depth : Nat} : ∀ {ds : List Datum}, depth < nestingOfItems ds →
    ∃ d ∈ ds, depth < d.nesting
  | [], h => absurd h (Nat.not_lt_zero depth)
  | d :: ds, h => by
    rw [nestingOfItems, lt_max_iff] at h
    rcases h with h | h
    · exact ⟨d, List.mem_cons_self, h⟩
    · obtain ⟨d', hd, hlt⟩ := exists_of_lt_nestingOfItems h
      exact ⟨d', List.mem_cons_of_mem d hd, hlt⟩

theorem exists_of_lt_nestingOfMembers {depth : Nat} : ∀ {ms : List (String × Datum)},
    depth < nestingOfMembers ms → ∃ m ∈ ms, depth < m.2.nesting
  | [], h => absurd h (Nat.not_lt_zero depth)
  | (key, d) :: ms, h => by
    rw [nestingOfMembers, lt_max_iff] at h
    rcases h with h | h
    · exact ⟨(key, d), List.mem_cons_self, h⟩
    · obtain ⟨m, hm, hlt⟩ := exists_of_lt_nestingOfMembers h
      exact ⟨m, List.mem_cons_of_mem _ hm, hlt⟩

theorem Asked.list {α β : Type} {shape : Shape α} {toJson : β → Value} {as : List β}
    (h : ∀ a ∈ as, Asked shape (toJson a).datum) :
    Asked (.list shape) (Value.array (as.map toJson)).datum := by
  intro depth hlt
  rw [Value.datum, Datum.nesting] at hlt
  rw [Value.datum, Deep]
  rcases Nat.eq_zero_or_pos depth with hzero | hpos
  · exact .inl hzero
  · have hitems : depth - 1 < nestingOfItems (Value.datumOfItems (as.map toJson)) := by omega
    obtain ⟨d, hd, hlt⟩ := exists_of_lt_nestingOfItems hitems
    obtain ⟨a, ha, rfl⟩ : ∃ a ∈ as, (toJson a).datum = d := by
      simpa [Value.datumOfItems_eq_map] using hd
    exact .inr ⟨_, hd, h a ha _ hlt⟩

theorem Asked.record {α γ : Type} {name : String} {closed : Bool} {parts : Parts γ} {build : γ → α}
    {ms : List (String × Datum)}
    (h : ∀ m ∈ ms, ∀ depth, depth < m.2.nesting → DeepPart parts depth m.1 m.2) :
    Asked (.record name closed parts build) (.object ms) := by
  intro depth hlt
  rw [Datum.nesting] at hlt
  rw [Deep]
  rcases Nat.eq_zero_or_pos depth with hzero | hpos
  · exact .inl hzero
  · have hmembers : depth - 1 < nestingOfMembers ms := by omega
    obtain ⟨m, hm, hlt⟩ := exists_of_lt_nestingOfMembers hmembers
    exact .inr ⟨m, hm, h m hm _ hlt⟩

/-- Where no member nests, there is nothing to ask for. -/
theorem Asked.record_of_flat {α γ : Type} {name : String} {closed : Bool} {parts : Parts γ}
    {build : γ → α} {ms : List (String × Datum)} (h : nestingOfMembers ms = 0) :
    Asked (.record name closed parts build) (.object ms) := by
  refine .record fun ⟨key, d⟩ hm depth hlt => ?_
  have hle : d.nesting ≤ nestingOfMembers ms := nesting_le_nestingOfMembers hm
  have hlt' : depth < d.nesting := hlt
  omega

end Json

open Json (Asked)

theorem Field.asked (f : Field) : Asked shape f.toJson.datum :=
  .record_of_flat rfl

theorem EnumValue.asked (v : EnumValue) : Asked shape v.toJson.datum :=
  .record_of_flat rfl

theorem Enum.asked (e : Enum) : Asked shape e.toJson.datum := by
  refine .record fun m hm depth hlt => ?_
  simp only [Value.datumOfMembers, List.mem_cons, List.not_mem_nil, or_false] at hm
  rcases hm with rfl | rfl
  · exact absurd hlt (Nat.not_lt_zero depth)
  · have hvalues := Asked.list (fun v _ => EnumValue.asked v) depth hlt
    simpa [Parts.string, Parts.list, DeepPart] using hvalues

theorem Method.asked (m : Method) : Asked shape m.toJson.datum :=
  .record_of_flat rfl

theorem Service.asked (s : Service) : Asked shape s.toJson.datum := by
  refine .record fun m hm depth hlt => ?_
  simp only [Value.datumOfMembers, List.mem_cons, List.not_mem_nil, or_false] at hm
  rcases hm with rfl | rfl
  · exact absurd hlt (Nat.not_lt_zero depth)
  · have hmethods := Asked.list (fun m _ => Method.asked m) depth hlt
    simpa [Parts.string, Parts.list, DeepPart] using hmethods

theorem Message.asked (bound : Nat) : ∀ m : Message, Asked (shape bound) m.toJson.datum := by
  induction bound with
  | zero =>
    intro m depth _
    rw [shape, Deep]
    exact trivial
  | succ bound ih =>
    rintro ⟨name, fields, enums, messages⟩
    rw [toJson, listToJson_eq_map]
    refine .record fun m hm depth hlt => ?_
    simp only [Value.datumOfMembers, List.mem_cons, List.not_mem_nil, or_false] at hm
    rcases hm with rfl | rfl | rfl | rfl
    · exact absurd hlt (Nat.not_lt_zero depth)
    · have hfields := Asked.list (fun f _ => Field.asked f) depth hlt
      simpa [Parts.string, Parts.list, DeepPart] using hfields
    · have henums := Asked.list (fun e _ => Enum.asked e) depth hlt
      simpa [Parts.string, Parts.list, DeepPart] using henums
    · have hmessages := Asked.list (fun m _ => ih m) depth hlt
      simpa [Parts.string, Parts.list, DeepPart] using hmessages

theorem Schema.asked (s : Schema) : Asked shape s.toJson.datum := by
  rw [toJson, Message.listToJson_eq_map]
  refine .record fun m hm depth hlt => ?_
  simp only [Value.datumOfMembers, List.mem_cons, List.not_mem_nil, or_false] at hm
  rcases hm with rfl | rfl | rfl
  · have hmessages := Asked.list (fun m _ => Message.asked Message.depthBound m) depth hlt
    simpa [Parts.list, DeepPart] using hmessages
  · have henums := Asked.list (fun e _ => Enum.asked e) depth hlt
    simpa [Parts.list, DeepPart] using henums
  · have hservices := Asked.list (fun s _ => Service.asked s) depth hlt
    simpa [Parts.list, DeepPart] using hservices

/-! ## Texts -/

theorem Schema.spellsText_jsonText (s : Schema) : Json.SpellsText s.jsonText s.toJson.datum := by
  rw [Json.SpellsText, jsonText, String.toList_ofList]
  exact .of_body s.toJson.spells_render

/-- A text is refused because its arrays and objects nest too deep. -/
def Schema.TooDeep (text : String) : Prop :=
  ∃ e, Schema.read .json text = .error (.invalid (.json e)) ∧ e.cause = .nestedTooDeep

/-- A schema whose text nests too deep is found to do so. -/
theorem Schema.tooDeep_jsonText {s : Schema} (h : 127 < s.toJson.datum.nesting) :
    TooDeep s.jsonText := by
  obtain ⟨e, he, hcause⟩ := Json.read_eq_error_of_deep distinct_shape s.spellsText_jsonText
    (means_of_written s.written_toJson) (s.asked Json.depthLimit h)
  refine ⟨e, ?_, hcause⟩
  rw [read_json_eq, he]
  rfl

/-! ## Messages in messages -/

mutual

/-- How many messages stand in one another. -/
def Message.height : Message → Nat
  | ⟨_, _, _, messages⟩ => Message.listHeight messages + 1

/-- The height of the highest of some messages. -/
def Message.listHeight : List Message → Nat
  | [] => 0
  | m :: ms => max m.height (Message.listHeight ms)

end

/-- How many messages of a schema stand in one another. -/
def Schema.height (s : Schema) : Nat := Message.listHeight s.messages

mutual

/-- A message's text nests an object and an array for each. -/
theorem Message.height_le_nesting : ∀ m : Message, 2 * m.height ≤ m.toJson.datum.nesting
  | ⟨name, fields, enums, messages⟩ => by
    have hmessages := Message.listHeight_le_nesting messages
    simp only [toJson, Value.datum, Value.datumOfMembers, Datum.nesting, Json.nestingOfMembers, height]
    omega

theorem Message.listHeight_le_nesting : ∀ ms : List Message,
    2 * listHeight ms ≤ Json.nestingOfItems (Value.datumOfItems (listToJson ms))
  | [] => Nat.zero_le _
  | m :: ms => by
    have hm := Message.height_le_nesting m
    have hms := Message.listHeight_le_nesting ms
    rw [listHeight, listToJson, Value.datumOfItems, Json.nestingOfItems]
    omega

end

theorem Schema.height_lt_nesting (s : Schema) : 2 * s.height + 1 < s.toJson.datum.nesting := by
  have hmessages := Message.listHeight_le_nesting s.messages
  simp only [toJson, Value.datum, Value.datumOfMembers, Datum.nesting, Json.nestingOfMembers, height]
  omega

/-- Messages in one another, each of which has nothing but its name and the next. -/
def Message.chain : List String → List Message
  | [] => []
  | name :: names => [{ name, messages := chain names }]

/-- A schema with messages in one another. -/
def Schema.chain (names : List String) : Schema := { messages := Message.chain names }

theorem Schema.height_chain (names : List String) : (chain names).height = names.length := by
  rw [height, chain]
  induction names with
  | nil => rfl
  | cons name names ih =>
    rw [Message.chain, Message.listHeight, Message.height, ih]
    rfl

/-- The members of a document about messages in one another that leaves out all that is empty. -/
def Message.chainMembers : List String → List (String × Value)
  | [] => []
  | name :: names =>
    [("messages", .array [.object (("name", .string name) :: chainMembers names)])]

/-- A document about messages in one another. -/
def Schema.chainText (names : List String) : String :=
  String.ofList (Value.object (Message.chainMembers names)).render

theorem Message.nesting_chainMembers : ∀ names : List String,
    Json.nestingOfMembers (Value.datumOfMembers (chainMembers names)) = 2 * names.length
  | [] => rfl
  | name :: names => by
    simp only [chainMembers, Value.datumOfMembers, Value.datum, Value.datumOfItems,
      Json.nestingOfMembers, Json.nestingOfItems, Datum.nesting, nesting_chainMembers names,
      List.length_cons]
    omega

theorem Message.written_chainMembers : ∀ (name : String) (names : List String),
    Message.Written (Value.object (("name", .string name) :: chainMembers names)).datum
      { name, messages := chain names }
  | name, [] => by
    have hkeys : ["name"].Nodup := by decide
    exact .mk (.object hkeys) .missing .missing .missing
  | name, next :: names => by
    have hkeys : ["name", "messages"].Nodup := by decide
    exact .mk (.object hkeys) .missing .missing (.items (.cons (written_chainMembers next names) .nil))

theorem Schema.written_chainMembers : ∀ names : List String,
    (chain names).Written (Value.object (Message.chainMembers names)).datum
  | [] => by
    have hkeys : ([] : List String).Nodup := by decide
    exact ⟨_, _, _, .object hkeys, .missing, .missing, .missing⟩
  | name :: names => by
    have hkeys : ["messages"].Nodup := by decide
    exact ⟨_, _, _, .object hkeys,
      .items (.cons (Message.written_chainMembers name names) .nil), .missing, .missing⟩

/-- A document about few enough messages in one another can be read. -/
theorem Schema.read_chainText {names : List String} (h : names.length ≤ 63) :
    Schema.read .json (chainText names) = .ok (chain names) := by
  have htext : Json.SpellsText (chainText names)
      (Value.object (Message.chainMembers names)).datum := by
    rw [Json.SpellsText, chainText, String.toList_ofList]
    exact .of_body (Value.spells_render _)
  refine read_json_of_written htext ?_ (written_chainMembers names)
  rw [Value.datum, Datum.nesting, Message.nesting_chainMembers]
  omega

/-- **A schema's JSON text is read as the schema** if it nests at most 127 arrays and objects, and is
refused for its depth otherwise. So no document that describes 63 messages in one another survives,
and there are some that can be read. -/
theorem Schema.read_jsonText :
    (∀ s : Schema, Json.SpellsText s.jsonText s.toJson.datum ∧
      (s.toJson.datum.nesting ≤ 127 → Schema.read .json s.jsonText = .ok s) ∧
      (127 < s.toJson.datum.nesting → TooDeep s.jsonText)) ∧
    (∀ (text : String) (s : Schema), Schema.read .json text = .ok s → s.height = 63 →
      TooDeep s.jsonText) ∧
    ∀ names : List String, names.length = 63 →
      Schema.read .json (chainText names) = .ok (chain names) ∧ (chain names).height = 63 := by
  refine ⟨fun s => ⟨s.spellsText_jsonText, fun h => ?_, tooDeep_jsonText⟩, ?_, ?_⟩
  · exact read_json_of_written s.spellsText_jsonText (Nat.lt_succ_of_le h) s.written_toJson
  · intro text s _ hheight
    have hnesting := s.height_lt_nesting
    exact tooDeep_jsonText (by omega)
  · intro names hlength
    exact ⟨read_chainText (Nat.le_of_eq hlength), (height_chain names).trans hlength⟩

/-- A schema with characters that are escaped and the ends of both ranges of numbers, and 63 messages
in one another. -/
theorem Schema.read_jsonText_extremes :
    let message : Message := { name := "\"\\\n\x01", fields := [.repeated "T" "f" 4294967295] }
    let s : Schema := ⟨[message], [{ name := "E", values := [⟨"V", -2147483648⟩] }], []⟩
    Schema.read .json s.jsonText = .ok s ∧
      TooDeep (chain (List.replicate 63 "m")).jsonText := by
  intro message s
  obtain ⟨hread, hheight⟩ := read_jsonText.2.2 (List.replicate 63 "m") List.length_replicate
  exact ⟨(read_jsonText.1 s).2.1 (by decide), read_jsonText.2.1 _ _ hread hheight⟩

end ProtoScribe

import ProtoScribe.Proofs.Command.Stages
import ProtoScribe.Proofs.Schema.JsonText
import ProtoScribe.Proofs.Source.Lines
import ProtoScribe.Proofs.Storage.Names
import ProtoScribe.Proofs.Text.Utf8
import ProtoScribe.Proofs.Yaml.Reading

/-!
# One text, two formats

The JSON text of a schema is YAML too, and both readers find the schema in it (`read_in_formats`).
Its names may look like anything, as they are quoted; it is enough that they go no further than `~`.
-/

namespace ProtoScribe

open Json (Datum Value)
open Json.Value (FitsFlow ItemsFitFlow)
open Yaml (BelowDelete Portable PortablePart)
open Document (Shape Parts)

/-! ## The texts fit between YAML's brackets -/

/-- The keys of schema documents. -/
def Schema.keys : List String :=
  ["messages", "enums", "services", "name", "fields", "values", "methods", "label", "type_name",
    "tag", "number", "input_type", "output_type", "client_streaming", "server_streaming"]

theorem Schema.key_fits {key : String} (h : key ∈ keys) :
    BelowDelete key.toList ∧ (Value.renderString key).length ≤ Yaml.Lexer.keyLength := by
  have hall : ∀ key ∈ keys, BelowDelete key.toList ∧
      (Value.renderString key).length ≤ Yaml.Lexer.keyLength := by
    decide
  exact hall key h

theorem Json.Value.itemsFitFlow_map {α : Type} {toJson : α → Value} {as : List α}
    (h : ∀ a ∈ as, (toJson a).FitsFlow) : ItemsFitFlow (as.map toJson) := by
  induction as with
  | nil => exact trivial
  | cons a as ih =>
    obtain ⟨ha, has⟩ := List.forall_mem_cons.mp h
    exact ⟨ha, ih has⟩

/-- What all names are like, so are those of each part. -/
theorem Json.Value.itemsFitFlow_of_names {α : Type} {toJson : α → Value} {names : α → List String}
    {as : List α} (h : ∀ name ∈ as.flatMap names, BelowDelete name.toList)
    (hfits : ∀ a ∈ as, (∀ name ∈ names a, BelowDelete name.toList) → (toJson a).FitsFlow) :
    ItemsFitFlow (as.map toJson) :=
  itemsFitFlow_map fun a ha => hfits a ha fun name hname =>
    h name (List.mem_flatMap.mpr ⟨a, ha, hname⟩)

theorem Label.belowDelete_word (l : Label) : BelowDelete (l.keyword.getD "singular").toList := by
  cases l <;> decide

theorem Field.fitsFlow_toJson {f : Field} (h : ∀ name ∈ f.names, BelowDelete name.toList) :
    f.toJson.FitsFlow := by
  obtain ⟨ht, hn, -⟩ : BelowDelete f.typeName.toList ∧ BelowDelete f.name.toList ∧ True := by
    simpa [names] using h
  exact ⟨Schema.key_fits (by decide), f.label.belowDelete_word, Schema.key_fits (by decide), ht,
    Schema.key_fits (by decide), hn, Schema.key_fits (by decide), trivial, trivial⟩

theorem EnumValue.fitsFlow_toJson {v : EnumValue} (h : BelowDelete v.name.toList) :
    v.toJson.FitsFlow :=
  ⟨Schema.key_fits (by decide), h, Schema.key_fits (by decide), trivial, trivial⟩

theorem Enum.fitsFlow_toJson {e : Enum} (h : ∀ name ∈ e.names, BelowDelete name.toList) :
    e.toJson.FitsFlow := by
  obtain ⟨hname, hvalues⟩ := List.forall_mem_cons.mp h
  exact ⟨Schema.key_fits (by decide), hname, Schema.key_fits (by decide),
    Value.itemsFitFlow_map fun v hv => v.fitsFlow_toJson (hvalues _ (List.mem_map_of_mem hv)),
    trivial⟩

theorem Method.fitsFlow_toJson {m : Method} (h : ∀ name ∈ m.names, BelowDelete name.toList) :
    m.toJson.FitsFlow := by
  obtain ⟨hn, hi, ho⟩ : BelowDelete m.name.toList ∧ BelowDelete m.input.toList ∧
      BelowDelete m.output.toList := by
    simpa [names] using h
  exact ⟨Schema.key_fits (by decide), hn, Schema.key_fits (by decide), hi,
    Schema.key_fits (by decide), ho, Schema.key_fits (by decide), trivial,
    Schema.key_fits (by decide), trivial, trivial⟩

theorem Service.fitsFlow_toJson {s : Service} (h : ∀ name ∈ s.names, BelowDelete name.toList) :
    s.toJson.FitsFlow := by
  obtain ⟨hname, hmethods⟩ := List.forall_mem_cons.mp h
  exact ⟨Schema.key_fits (by decide), hname, Schema.key_fits (by decide),
    Value.itemsFitFlow_of_names hmethods fun m _ => m.fitsFlow_toJson, trivial⟩

theorem Message.fitsFlow_toJson : ∀ {m : Message}, (∀ name ∈ m.names, BelowDelete name.toList) →
    m.toJson.FitsFlow
  | ⟨name, fields, enums, messages⟩, h => by
    simp only [names, listNames_eq_flatMap, List.forall_mem_cons, List.forall_mem_append] at h
    obtain ⟨hname, ⟨hfields, henums⟩, hmessages⟩ := h
    rw [toJson, listToJson_eq_map]
    exact ⟨Schema.key_fits (by decide), hname, Schema.key_fits (by decide),
      Value.itemsFitFlow_of_names hfields fun f _ => f.fitsFlow_toJson,
      Schema.key_fits (by decide),
      Value.itemsFitFlow_of_names henums fun e _ => e.fitsFlow_toJson,
      Schema.key_fits (by decide),
      Value.itemsFitFlow_of_names hmessages fun m _ => m.fitsFlow_toJson, trivial⟩

theorem Schema.fitsFlow_toJson {s : Schema} (h : ∀ name ∈ s.names, BelowDelete name.toList) :
    s.toJson.FitsFlow := by
  simp only [names, Message.listNames_eq_flatMap, List.forall_mem_append] at h
  obtain ⟨⟨hmessages, henums⟩, hservices⟩ := h
  rw [toJson, Message.listToJson_eq_map]
  exact ⟨key_fits (by decide),
    Value.itemsFitFlow_of_names hmessages fun m _ => m.fitsFlow_toJson,
    key_fits (by decide),
    Value.itemsFitFlow_of_names henums fun e _ => e.fitsFlow_toJson,
    key_fits (by decide),
    Value.itemsFitFlow_of_names hservices fun d _ => d.fitsFlow_toJson, trivial⟩

/-! ## Both formats take them -/

/-- A list is written as an array of what both formats take. -/
theorem Yaml.portable_list {α β : Type} {shape : Shape α} {toJson : β → Value} {as : List β}
    (h : ∀ a ∈ as, Portable shape (toJson a).datum) :
    Portable (.list shape) (Value.array (as.map toJson)).datum := by
  rw [Value.datum, Portable, Value.datumOfItems_eq_map]
  simpa using h

theorem Field.portable_toJson (f : Field) : Portable shape f.toJson.datum := by
  rw [toJson, shape, Value.datum, Portable]
  simp [Value.datumOfMembers, PortablePart, Portable, Parts.string, Shape.string,
    Document.IntegerKind.isSigned, tags]

theorem EnumValue.portable_toJson (v : EnumValue) : Portable shape v.toJson.datum := by
  have hnumbers : numbers.greatest ≤ Int64.maxValue.toInt := by decide
  rw [toJson, shape, Value.datum, Portable]
  simp [Value.datumOfMembers, PortablePart, Portable, Parts.string, Shape.string, hnumbers]

theorem Enum.portable_toJson (e : Enum) : Portable shape e.toJson.datum := by
  have hvalues := Yaml.portable_list fun v (_ : v ∈ e.values) => v.portable_toJson
  rw [toJson, shape, Value.datum, Portable]
  simpa [Value.datumOfMembers, PortablePart, Portable, Parts.string, Parts.list, Shape.string]
    using hvalues

theorem Method.portable_toJson (m : Method) : Portable shape m.toJson.datum := by
  rw [toJson, shape, Value.datum, Portable]
  simp [Value.datumOfMembers, PortablePart, Portable, Parts.string, Parts.flag, Shape.string]

theorem Service.portable_toJson (s : Service) : Portable shape s.toJson.datum := by
  have hmethods := Yaml.portable_list fun m (_ : m ∈ s.methods) => m.portable_toJson
  rw [toJson, shape, Value.datum, Portable]
  simpa [Value.datumOfMembers, PortablePart, Portable, Parts.string, Parts.list, Shape.string]
    using hmethods

theorem Message.portable_toJson (bound : Nat) : ∀ m : Message,
    Portable (shape bound) m.toJson.datum := by
  induction bound with
  | zero =>
    intro m
    rw [shape, Portable]
    exact trivial
  | succ bound ih =>
    rintro ⟨name, fields, enums, messages⟩
    have hfields := Yaml.portable_list fun f (_ : f ∈ fields) => f.portable_toJson
    have henums := Yaml.portable_list fun e (_ : e ∈ enums) => e.portable_toJson
    have hmessages := Yaml.portable_list fun m (_ : m ∈ messages) => ih m
    rw [toJson, shape, listToJson_eq_map, Value.datum, Portable]
    simpa [Value.datumOfMembers, PortablePart, Portable, Parts.string, Parts.list, Shape.string]
      using And.intro hfields (And.intro henums hmessages)

theorem Schema.portable_toJson (s : Schema) : Portable shape s.toJson.datum := by
  have hmessages := Yaml.portable_list fun m (_ : m ∈ s.messages) =>
    m.portable_toJson Message.depthBound
  have henums := Yaml.portable_list fun e (_ : e ∈ s.enums) => e.portable_toJson
  have hservices := Yaml.portable_list fun d (_ : d ∈ s.services) => d.portable_toJson
  rw [toJson, shape, Message.listToJson_eq_map, Value.datum, Portable]
  simpa [Value.datumOfMembers, PortablePart, Portable, Parts.list]
    using And.intro hmessages (And.intro henums hservices)

/-! ## Texts -/

namespace Schema

variable {s : Schema}

theorem read_yaml_jsonText (hnames : ∀ name ∈ s.names, BelowDelete name.toList)
    (hnesting : s.toJson.datum.nesting < 128) : Schema.read .yaml s.jsonText = .ok s := by
  have hdeep : ¬Json.Deep shape Yaml.depthLimit s.toJson.datum := by
    intro hdeep
    have hlt : Yaml.depthLimit < s.toJson.datum.nesting :=
      Json.lt_nesting_of_deep shape reaches_shape (by decide) hdeep
    rw [Yaml.depthLimit] at hlt
    omega
  have hread : Yaml.read shape s.jsonText = .ok s :=
    Yaml.read_render (v := s.toJson) distinct_shape trivial (fitsFlow_toJson hnames) s.portable_toJson
      (means_of_written s.written_toJson) hdeep
  rw [Schema.read, Format.read, hread]
  rfl

/-- **The JSON text of a schema is the schema in both formats**, if its names go no further than `~`
and it nests less than 128 arrays and objects. So a file that holds it may be called either way. -/
theorem read_in_formats (s : Schema)
    (hnames : ∀ name ∈ s.names, ∀ c ∈ name.toList, c.toNat ≤ 0x7E)
    (hnesting : s.toJson.datum.nesting < 128) :
    Schema.read .yaml s.jsonText = .ok s ∧ Schema.read .json s.jsonText = .ok s ∧
      ∀ (w : World) (p : Path) (format : Format), p.format? = some format →
        w.tree.readBytes w.cwd p = .ok (Utf8.encode s.jsonText) →
          (World.host.loadSchema p w).1 = .ok s := by
  have hyaml := read_yaml_jsonText
    (fun name hname c hc => Nat.lt_succ_of_le (hnames name hname c hc)) hnesting
  have hjson := read_json_of_written s.spellsText_jsonText hnesting s.written_toJson
  refine ⟨hyaml, hjson, fun w p format hformat hbytes => ?_⟩
  rw [Command.hostLoadSchema_apply, hformat, hbytes, Command.textOf, Utf8.decode_encode]
  cases format with
  | json => exact hjson
  | yaml => exact hyaml

/-- A directory with one text under a name for each format. -/
def twice (bytes : List UInt8) : World where
  tree := ((default : FileTree).put [] "s.yml" (.file bytes)).put [] "s.json" (.file bytes)

theorem readBytes_twice (bytes : List UInt8) :
    (twice bytes).tree.readBytes [] ⟨"s.yml"⟩ = .ok bytes ∧
      (twice bytes).tree.readBytes [] ⟨"s.json"⟩ = .ok bytes := by
  have hread {name : String} : '/' ∉ name.toList → '\x00' ∉ name.toList → FileTree.FitsStep name →
      (twice bytes).tree.get? ([] ++ [name]) = some (.file bytes) →
        (twice bytes).tree.readBytes [] ⟨name⟩ = .ok bytes := FileTree.readBytes_of_name
  exact ⟨hread (by decide) (by decide) ⟨by decide, by decide⟩ rfl,
    hread (by decide) (by decide) ⟨by decide, by decide⟩ rfl⟩

/-- Names that look like what they are not: nothing, numbers, truth values, comments, keys and
brackets, and one that has to be escaped. -/
theorem read_in_formats_lookalikes :
    let e : Enum := ⟨"# no comment", [⟨"- ", -7⟩, ⟨"a: b", 2147483647⟩, ⟨"\"\\\n\x00\x1f", 0⟩]⟩
    let m : Message := { name := "null", fields := [.repeated "1.5" "\x7btrue, 0x7\x7d" 4294967295] }
    let s : Schema := { messages := [m], enums := [e], services := [{ name := "" }] }
    let w := twice (Utf8.encode s.jsonText)
    s.toJson.datum.nesting = 5 ∧ Schema.read .yaml s.jsonText = .ok s ∧
      Schema.read .json s.jsonText = .ok s ∧ (World.host.loadSchema ⟨"s.yml"⟩ w).1 = .ok s ∧
        (World.host.loadSchema ⟨"s.json"⟩ w).1 = .ok s := by
  have hyml : (⟨"s.yml"⟩ : Path).format? = some .yaml := by cbv
  have hjson : (⟨"s.json"⟩ : Path).format? = some .json := by cbv
  intro e m s w
  have hnames : ∀ name ∈ s.names, BelowDelete name.toList := by decide
  have hbytes := readBytes_twice (Utf8.encode s.jsonText)
  obtain ⟨hreadYaml, hreadJson, hload⟩ := read_in_formats s
    (fun name hname c hc => Nat.le_of_lt_succ (hnames name hname c hc)) (by decide)
  exact ⟨by decide, hreadYaml, hreadJson, hload w _ .yaml hyml hbytes.1,
    hload w _ .json hjson hbytes.2⟩

end Schema

end ProtoScribe

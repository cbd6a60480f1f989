import ProtoScribe.Load
import ProtoScribe.Proofs.Json.Reading

/-!
# Schema documents in JSON

Which JSON values are schemas, by rules of their own: every definition is an object with some of the
keys that are known for it, or an array of what these keys have in order (`Datum.Gives`), and what
is left out of either has a default or is missing.

The reader takes just the texts that spell such a value, and returns the schema that it is
(`Schema.read_json_eq_ok_iff`).
-/

namespace ProtoScribe

open Document (Shape Parts)
open Json (Datum Means PartsMean Distinct PartsDistinct Reaches PartsReach Deep)

/-! ## Documents -/

namespace Json

/-- An integer as a number that is spelled as one. -/
def IntegerWritten (i : Int) : Datum → Prop
  | .number n => n.integer? = some i
  | _ => False

/-- A flag, or nothing for one that is off. -/
inductive FlagWritten : Option Datum → Bool → Prop where
  | missing : FlagWritten none false
  | value (b : Bool) : FlagWritten (some (.flag b)) b

/-- An array of what each item of a list is written as, or nothing for the empty list. -/
inductive ListWritten {α : Type} (written : Datum → α → Prop) : Option Datum → List α → Prop where
  | missing : ListWritten written none []
  | items {ds : List Datum} {as : List α} : List.Forall₂ written ds as →
    ListWritten written (some (.array ds)) as

end Json

open Json (IntegerWritten FlagWritten ListWritten)

/-- A label as its word, as an object that maps the word to null, or as nothing if it is singular. -/
inductive Label.Written : Option Datum → Label → Prop where
  | missing : Written none .singular
  | word {word : String} {l : Label} : (word, l) ∈ words → Written (some (.string word)) l
  | object {word : String} {l : Label} : (word, l) ∈ words →
    Written (some (.object [(word, .null)])) l

/-- A field needs its type, its name and its tag. -/
def Field.Written (d : Datum) (f : Field) : Prop :=
  ∃ label tag, d.Gives ["label", "type_name", "name", "tag"]
      [label, some (.string f.typeName), some (.string f.name), some tag] ∧
    Label.Written label f.label ∧ IntegerWritten f.tag.toNat tag

/-- A value needs its name and its number. -/
def EnumValue.Written (d : Datum) (v : EnumValue) : Prop :=
  ∃ number, d.Gives ["name", "number"] [some (.string v.name), some number] ∧
    IntegerWritten v.number.toInt number

/-- An enum needs its name. -/
def Enum.Written (d : Datum) (e : Enum) : Prop :=
  ∃ values, d.Gives ["name", "values"] [some (.string e.name), values] ∧
    ListWritten EnumValue.Written values e.values

/-- A method needs its name and both its types. -/
def Method.Written (d : Datum) (m : Method) : Prop :=
  ∃ client server, d.Gives ["name", "input_type", "output_type", "client_streaming",
        "server_streaming"]
      [some (.string m.name), some (.string m.input), some (.string m.output), client, server] ∧
    FlagWritten client m.clientStreams ∧ FlagWritten server m.serverStreams

/-- A service needs its name. -/
def Service.Written (d : Datum) (s : Service) : Prop :=
  ∃ methods, d.Gives ["name", "methods"] [some (.string s.name), methods] ∧
    ListWritten Method.Written methods s.methods

/-- A message needs its name. -/
inductive Message.Written : Datum → Message → Prop where
  | mk {d : Datum} {m : Message} {fields enums messages : Option Datum} :
    d.Gives ["name", "fields", "enums", "messages"]
      [some (.string m.name), fields, enums, messages] →
    ListWritten Field.Written fields m.fields → ListWritten Enum.Written enums m.enums →
    ListWritten Message.Written messages m.messages → Written d m

/-- A schema needs nothing. -/
def Schema.Written (d : Datum) (s : Schema) : Prop :=
  ∃ messages enums services, d.Gives ["messages", "enums", "services"] [messages, enums, services] ∧
    ListWritten Message.Written messages s.messages ∧ ListWritten Enum.Written enums s.enums ∧
      ListWritten Service.Written services s.services

/-! ## Parts -/

namespace Json

variable {α γ : Type}

/-- A record means what it is built from, if its parts mean that. -/
theorem means_record_iff {name : String} {parts : Parts γ} {build : γ → α} {d : Datum} {a : α}
    (c : γ) (h : ∀ c', build c' = a ↔ c' = c) :
    Means (.record name false parts build) d a ↔
      ∃ slots, d.Gives parts.names slots ∧ PartsMean parts slots c := by
  rw [Means]
  constructor
  · rintro ⟨-, slots, c', hgives, hc, ha⟩
    rw [(h c').mp ha] at hc
    exact ⟨slots, hgives, hc⟩
  · rintro ⟨slots, hgives, hc⟩
    exact ⟨nofun, slots, c, hgives, hc, (h c).mpr rfl⟩

section Parts

variable {name : String} {default : Option α} {shape : Shape α} {rest : Parts γ} {a : α} {c : γ}
  {given : List (Option Datum) → Prop}

/-- The first of some parts takes the first of what is given, and the others take the rest. -/
theorem exists_partsMean_cons_iff :
    (∃ slots, given slots ∧ PartsMean (.part name default shape rest) slots (a, c)) ↔
      ∃ slot, Fills default shape none slot a ∧
        ∃ slots, given (slot :: slots) ∧ PartsMean rest slots c := by
  constructor
  · rintro ⟨slots, hgiven, hparts⟩
    match slots with
    | [] =>
      rw [PartsMean] at hparts
      exact hparts.elim
    | none :: slots =>
      rw [PartsMean] at hparts
      exact ⟨none, hparts.1, slots, hgiven, hparts.2⟩
    | some d :: slots =>
      rw [PartsMean] at hparts
      exact ⟨some d, hparts.1, slots, hgiven, hparts.2⟩
  · rintro ⟨slot, hfills, slots, hgiven, hrest⟩
    refine ⟨slot :: slots, hgiven, ?_⟩
    cases slot with
    | none =>
      rw [PartsMean]
      exact ⟨hfills, hrest⟩
    | some d =>
      rw [PartsMean]
      exact ⟨hfills, hrest⟩

theorem exists_partsMean_nil_iff {u : Unit} :
    (∃ slots, given slots ∧ PartsMean .none slots u) ↔ given [] := by
  simp only [PartsMean, exists_eq_right]

end Parts

variable {slot : Option Datum}

/-- Text that has to be there is a string. -/
theorem fills_text_iff {s : String} :
    Fills none Shape.string none slot s ↔ slot = some (.string s) := by
  cases slot with
  | none => simp [Fills]
  | some d => simp [Fills, Shape.string, Means]

theorem fills_flag_iff {b : Bool} :
    Fills (some false) .flag none slot b ↔ FlagWritten slot b := by
  cases slot with
  | none =>
    rw [Fills]
    constructor
    · rintro ⟨⟩
      exact .missing
    · rintro ⟨⟩
      rfl
  | some d =>
    rw [Fills, Means]
    constructor
    · rintro rfl
      exact .value b
    · rintro ⟨⟩
      rfl

/-- A list, of which it is known what its items mean. -/
theorem fills_list_iff {shape : Shape α} {written : Datum → α → Prop} {as : List α}
    (h : ∀ d a, Means shape d a ↔ written d a) :
    Fills (some []) (.list shape) none slot as ↔ ListWritten written slot as := by
  cases slot with
  | none =>
    rw [Fills]
    constructor
    · rintro ⟨⟩
      exact .missing
    · rintro ⟨⟩
      rfl
  | some d =>
    rw [Fills, Means]
    constructor
    · rintro ⟨ds, rfl, hitems⟩
      exact .items (hitems.imp fun d a => (h d a).mp)
    · rintro (_ | hitems)
      exact ⟨_, rfl, hitems.imp fun d a => (h d a).mpr⟩

theorem ListWritten.imp {written written' : Datum → α → Prop} {as : List α}
    (h : ∀ ds, slot = some (.array ds) → ∀ d ∈ ds, ∀ a, written d a → written' d a)
    (hw : ListWritten written slot as) : ListWritten written' slot as := by
  cases hw with
  | missing => exact .missing
  | @items ds as hitems =>
    have hboth := (List.forall₂_and_left ds as).mpr ⟨h ds rfl, hitems⟩
    exact .items (hboth.imp fun d a hd => hd.1 a hd.2)

/-- The only integer that means something of a kind. -/
theorem fills_integer_iff {kind : Document.IntegerKind α} {a : α} {i : Int}
    (hfits : -2 ^ 63 ≤ i ∧ i < 2 ^ 64) (hkind : ∀ j, kind.ofInt? j = some a ↔ j = i) :
    Fills none (.integer kind) none slot a ↔ ∃ d, slot = some d ∧ IntegerWritten i d := by
  cases slot with
  | none => simp [Fills]
  | some d =>
    rw [Fills, Means]
    constructor
    · rintro ⟨n, j, rfl, hj, -, ha⟩
      rw [(hkind j).mp ha] at hj
      exact ⟨.number n, rfl, hj⟩
    · rintro ⟨_, ⟨⟩, h⟩
      cases d with
      | number n => exact ⟨n, i, rfl, h, hfits, (hkind i).mpr rfl⟩
      | _ => cases h

end Json

open Json (Fills means_record_iff exists_partsMean_cons_iff exists_partsMean_nil_iff fills_text_iff
  fills_flag_iff fills_list_iff fills_integer_iff)

theorem Label.lookup_words_eq_some_iff {word : String} {l : Label} :
    words.lookup word = some l ↔ (word, l) ∈ words := by
  constructor
  · intro h
    obtain ⟨before, after, hwords, -⟩ := List.lookup_eq_some_iff.mp h
    rw [hwords]
    exact List.mem_append_right before List.mem_cons_self
  · intro h
    simp only [words, List.mem_cons, Prod.mk.injEq, List.not_mem_nil, or_false] at h
    rcases h with ⟨rfl, rfl⟩ | ⟨rfl, rfl⟩ | ⟨rfl, rfl⟩ | ⟨rfl, rfl⟩ <;> rfl

theorem Label.fills_iff {slot : Option Datum} {l : Label} :
    Fills (some .singular) (.choice words) none slot l ↔ l.Written slot := by
  cases slot with
  | none =>
    rw [Fills]
    constructor
    · rintro ⟨⟩
      exact .missing
    · rintro ⟨⟩
      rfl
  | some d =>
    simp only [Fills, Means, lookup_words_eq_some_iff]
    constructor
    · rintro ⟨word, rfl | rfl, hmem⟩
      · exact .word hmem
      · exact .object hmem
    · rintro (_ | hmem | hmem)
      · exact ⟨_, .inl rfl, hmem⟩
      · exact ⟨_, .inr rfl, hmem⟩

theorem Document.IntegerKind.ofInt?_eq_some_iff {α : Type} {kind : Document.IntegerKind α} {i : Int}
    {a : α} : kind.ofInt? i = some a ↔ (kind.least ≤ i ∧ i ≤ kind.greatest) ∧ kind.ofInt i = a := by
  rw [Document.IntegerKind.ofInt?]
  split
  · next h => simp [h]
  · next h => simp [h]

theorem Field.ofInt?_tags_eq_some_iff (tag : UInt32) (i : Int) :
    tags.ofInt? i = some tag ↔ i = tag.toNat := by
  have hsize : tag.toNat < 4294967296 := tag.toNat_lt
  rw [Document.IntegerKind.ofInt?_eq_some_iff]
  change (0 ≤ i ∧ i ≤ 4294967295) ∧ UInt32.ofNat i.toNat = tag ↔ _
  constructor
  · rintro ⟨⟨hleast, hgreatest⟩, rfl⟩
    rw [UInt32.toNat_ofNat']
    omega
  · rintro rfl
    exact ⟨by omega, by simp⟩

theorem EnumValue.ofInt?_numbers_eq_some_iff (number : Int32) (i : Int) :
    numbers.ofInt? i = some number ↔ i = number.toInt := by
  rw [Document.IntegerKind.ofInt?_eq_some_iff]
  change (-2147483648 ≤ i ∧ i ≤ 2147483647) ∧ Int32.ofInt i = number ↔ _
  constructor
  · rintro ⟨⟨hleast, hgreatest⟩, rfl⟩
    exact (Int32.toInt_ofInt_of_le hleast (by omega)).symm
  · rintro rfl
    exact ⟨⟨number.le_toInt, number.toInt_le⟩, Int32.ofInt_toInt number⟩

/-! ## Definitions -/

theorem Field.fills_tags_iff {slot : Option Datum} {tag : UInt32} :
    Fills none (.integer tags) none slot tag ↔
      ∃ d, slot = some d ∧ IntegerWritten tag.toNat d := by
  have hsize := tag.toNat_lt
  exact fills_integer_iff ⟨by omega, by omega⟩ (ofInt?_tags_eq_some_iff tag)

theorem EnumValue.fills_numbers_iff {slot : Option Datum} {number : Int32} :
    Fills none (.integer numbers) none slot number ↔
      ∃ d, slot = some d ∧ IntegerWritten number.toInt d := by
  have hleast := number.le_toInt
  have hgreatest := number.toInt_lt
  exact fills_integer_iff ⟨by omega, by omega⟩ (ofInt?_numbers_eq_some_iff number)

theorem Field.means_iff {d : Datum} {f : Field} : Means shape d f ↔ f.Written d := by
  obtain ⟨label, typeName, name, tag⟩ := f
  rw [shape, means_record_iff (label, typeName, name, tag, ()) (by simp)]
  simp only [Parts.string, exists_partsMean_cons_iff, exists_partsMean_nil_iff, Label.fills_iff,
    fills_text_iff, fills_tags_iff, exists_eq_left]
  constructor
  · rintro ⟨label, hlabel, _, ⟨d', rfl, htag⟩, hgives⟩
    exact ⟨label, d', hgives, hlabel, htag⟩
  · rintro ⟨label, d', hgives, hlabel, htag⟩
    exact ⟨label, hlabel, some d', ⟨d', rfl, htag⟩, hgives⟩

theorem EnumValue.means_iff {d : Datum} {v : EnumValue} : Means shape d v ↔ v.Written d := by
  obtain ⟨name, number⟩ := v
  rw [shape, means_record_iff (name, number, ()) (by simp)]
  simp only [Parts.string, exists_partsMean_cons_iff, exists_partsMean_nil_iff, fills_text_iff,
    fills_numbers_iff, exists_eq_left]
  constructor
  · rintro ⟨_, ⟨d', rfl, hnumber⟩, hgives⟩
    exact ⟨d', hgives, hnumber⟩
  · rintro ⟨d', hgives, hnumber⟩
    exact ⟨some d', ⟨d', rfl, hnumber⟩, hgives⟩

theorem Enum.means_iff {d : Datum} {e : Enum} : Means shape d e ↔ e.Written d := by
  obtain ⟨name, values⟩ := e
  rw [shape, means_record_iff (name, values, ()) (by simp)]
  simp only [Parts.string, Parts.list, exists_partsMean_cons_iff, exists_partsMean_nil_iff,
    fills_text_iff, fills_list_iff fun _ _ => EnumValue.means_iff, exists_eq_left]
  exact exists_congr fun values => and_comm

theorem Method.means_iff {d : Datum} {m : Method} : Means shape d m ↔ m.Written d := by
  obtain ⟨name, input, output, client, server⟩ := m
  rw [shape, means_record_iff (name, input, output, client, server, ()) (by simp)]
  simp only [Parts.string, Parts.flag, exists_partsMean_cons_iff, exists_partsMean_nil_iff,
    fills_text_iff, fills_flag_iff, exists_eq_left]
  constructor
  · rintro ⟨client, hclient, server, hserver, hgives⟩
    exact ⟨client, server, hgives, hclient, hserver⟩
  · rintro ⟨client, server, hgives, hclient, hserver⟩
    exact ⟨client, hclient, server, hserver, hgives⟩

theorem Service.means_iff {d : Datum} {s : Service} : Means shape d s ↔ s.Written d := by
  obtain ⟨name, methods⟩ := s
  rw [shape, means_record_iff (name, methods, ()) (by simp)]
  simp only [Parts.string, Parts.list, exists_partsMean_cons_iff, exists_partsMean_nil_iff,
    fills_text_iff, fills_list_iff fun _ _ => Method.means_iff, exists_eq_left]
  exact exists_congr fun methods => and_comm

/-- What a message means one level further down is left open. -/
theorem Message.means_succ_iff {bound : Nat} {d : Datum} {m : Message} :
    Means (shape (bound + 1)) d m ↔ ∃ fields enums messages,
      d.Gives ["name", "fields", "enums", "messages"]
        [some (.string m.name), fields, enums, messages] ∧
      ListWritten Field.Written fields m.fields ∧ ListWritten Enum.Written enums m.enums ∧
      ListWritten (Means (shape bound)) messages m.messages := by
  obtain ⟨name, fields, enums, messages⟩ := m
  rw [shape, means_record_iff (name, fields, enums, messages, ()) (by simp)]
  simp only [Parts.string, Parts.list, exists_partsMean_cons_iff, exists_partsMean_nil_iff,
    fills_text_iff, fills_list_iff fun _ _ => Field.means_iff,
    fills_list_iff fun _ _ => Enum.means_iff,
    fills_list_iff fun d m => (Iff.rfl : Means (shape bound) d m ↔ _), exists_eq_left]
  constructor
  · rintro ⟨fields, hfields, enums, henums, messages, hmessages, hgives⟩
    exact ⟨fields, enums, messages, hgives, hfields, henums, hmessages⟩
  · rintro ⟨fields, enums, messages, hgives, hfields, henums, hmessages⟩
    exact ⟨fields, hfields, enums, henums, messages, hmessages, hgives⟩

theorem Schema.means_iff {d : Datum} {s : Schema} :
    Means shape d s ↔ ∃ messages enums services,
      d.Gives ["messages", "enums", "services"] [messages, enums, services] ∧
      ListWritten (Means (Message.shape Message.depthBound)) messages s.messages ∧
      ListWritten Enum.Written enums s.enums ∧ ListWritten Service.Written services s.services := by
  obtain ⟨messages, enums, services⟩ := s
  rw [shape, means_record_iff (messages, enums, services, ()) (by simp)]
  simp only [Parts.list, exists_partsMean_cons_iff, exists_partsMean_nil_iff,
    fills_list_iff fun d m => (Iff.rfl : Means (Message.shape _) d m ↔ _),
    fills_list_iff fun _ _ => Enum.means_iff, fills_list_iff fun _ _ => Service.means_iff]
  constructor
  · rintro ⟨messages, hmessages, enums, henums, services, hservices, hgives⟩
    exact ⟨messages, enums, services, hgives, hmessages, henums, hservices⟩
  · rintro ⟨messages, enums, services, hgives, hmessages, henums, hservices⟩
    exact ⟨messages, hmessages, enums, henums, services, hservices, hgives⟩

/-- What a datum gives nests less deep than the datum. -/
theorem Json.Datum.Gives.nesting_lt {names : List String} {d d' : Datum}
    {slots : List (Option Datum)} (h : d.Gives names slots) (hmem : some d' ∈ slots) :
    d'.nesting < d.nesting := by
  cases h with
  | @object ms _ =>
    obtain ⟨name, -, hname⟩ := List.mem_map.mp hmem
    obtain ⟨before, after, hms, -⟩ := List.lookup_eq_some_iff.mp hname
    have hd : (name, d') ∈ ms := hms ▸ List.mem_append_right before List.mem_cons_self
    exact Nat.lt_succ_of_le (nesting_le_nestingOfMembers hd)
  | @array ds missing _ =>
    rcases List.mem_append.mp hmem with hd | hnone
    · rw [List.mem_map_of_injective (Option.some_injective _)] at hd
      exact Nat.lt_succ_of_le (nesting_le_nestingOfItems hd)
    · cases (List.mem_replicate.mp hnone).2

/-- So do the items of a list that it gives. -/
theorem Json.Datum.Gives.nesting_item_lt {names : List String} {d d' : Datum}
    {slots : List (Option Datum)} {ds : List Datum} (h : d.Gives names slots)
    (hmem : some (.array ds) ∈ slots) (hd : d' ∈ ds) : d'.nesting + 1 < d.nesting := by
  have hitem := Json.nesting_le_nestingOfItems hd
  have hslot := h.nesting_lt hmem
  rw [Json.Datum.nesting] at hslot
  omega

namespace Message

/-- A message means what it is written as, however deep its shape goes. -/
theorem means_of_written (bound : Nat) : ∀ {d : Datum} {m : Message}, m.Written d →
    Means (shape bound) d m := by
  induction bound with
  | zero =>
    intro d m _
    rw [shape, Means]
    exact trivial
  | succ bound ih =>
    rintro d m ⟨hgives, hfields, henums, hmessages⟩
    exact means_succ_iff.mpr
      ⟨_, _, _, hgives, hfields, henums, hmessages.imp fun _ _ _ _ _ => ih⟩

/-- And it is written as what it means, unless it nests as deep as its shape goes. -/
theorem written_of_means (bound : Nat) : ∀ {d : Datum} {m : Message}, d.nesting < 2 * bound →
    Means (shape bound) d m → m.Written d := by
  induction bound with
  | zero =>
    intro d m hlt
    omega
  | succ bound ih =>
    intro d m hlt hmeans
    obtain ⟨fields, enums, messages, hgives, hfields, henums, hmessages⟩ := means_succ_iff.mp hmeans
    refine .mk hgives hfields henums (hmessages.imp fun ds hds d' hd m => ih ?_)
    have hitem := hgives.nesting_item_lt (by simp [hds]) hd
    omega

end Message

namespace Schema

theorem means_of_written {d : Datum} {s : Schema} (h : s.Written d) : Means shape d s := by
  obtain ⟨messages, enums, services, hgives, hmessages, henums, hservices⟩ := h
  exact means_iff.mpr ⟨messages, enums, services, hgives,
    hmessages.imp fun _ _ _ _ _ => Message.means_of_written _, henums, hservices⟩

theorem written_of_means {d : Datum} {s : Schema} (hlt : d.nesting ≤ 2 * Message.depthBound)
    (h : Means shape d s) : s.Written d := by
  obtain ⟨messages, enums, services, hgives, hmessages, henums, hservices⟩ := means_iff.mp h
  refine ⟨_, _, _, hgives, hmessages.imp fun ds hds d' hd m => ?_, henums, hservices⟩
  have hitem := hgives.nesting_item_lt (by simp [hds]) hd
  exact Message.written_of_means _ (by omega)

end Schema

/-! ## The shape -/

theorem Message.distinct_shape (bound : Nat) : Distinct (shape bound) := by
  induction bound with
  | zero => simp only [shape, Distinct]
  | succ bound ih =>
    simp [shape, Field.shape, Enum.shape, EnumValue.shape, Parts.string, Parts.list, Shape.string,
      Distinct, PartsDistinct, Parts.names, ih]

theorem Schema.distinct_shape : Distinct shape := by
  simp [shape, Service.shape, Method.shape, Enum.shape, EnumValue.shape, Parts.string, Parts.list,
    Parts.flag, Shape.string, Distinct, PartsDistinct, Parts.names, Message.distinct_shape]

theorem Message.reaches_shape (bound : Nat) : Reaches (shape bound) (2 * bound) := by
  induction bound with
  | zero => simp only [shape, Reaches]
  | succ bound ih =>
    have hbound : 2 * (bound + 1) - 1 - 1 = 2 * bound := by omega
    simp [shape, Field.shape, Enum.shape, EnumValue.shape, Parts.string, Parts.list, Shape.string,
      Reaches, PartsReach, hbound, ih]

theorem Schema.reaches_shape : Reaches shape (2 * Message.depthBound + 2) := by
  simp [shape, Service.shape, Method.shape, Enum.shape, EnumValue.shape, Parts.string, Parts.list,
    Parts.flag, Shape.string, Reaches, PartsReach, Message.reaches_shape]

/-! ## Texts -/

namespace Schema

variable {text : String} {d : Datum}

theorem not_deep (hdepth : d.nesting < 128) : ¬Deep shape Json.depthLimit d := by
  intro hdeep
  have hlt : Json.depthLimit < d.nesting :=
    Json.lt_nesting_of_deep shape reaches_shape (by decide) hdeep
  rw [Json.depthLimit] at hlt
  omega

theorem read_json_eq (text : String) :
    Schema.read .json text = ((Json.read shape text).mapError .json).mapError .invalid := rfl

/-- A text that spells a schema is read as the schema. -/
theorem read_json_of_written {s : Schema} (htext : Json.SpellsText text d)
    (hdepth : d.nesting < 128) (h : s.Written d) : Schema.read .json text = .ok s := by
  have hread : Json.read shape text = .ok s :=
    (Json.read_eq_ok_iff distinct_shape htext s).mpr ⟨means_of_written h, not_deep hdepth⟩
  rw [read_json_eq, hread]
  rfl

/-- **The reader takes just the texts that spell a schema**, among those that nest less than 128
arrays and objects, and returns that schema. -/
theorem read_json_eq_ok_iff (htext : Json.SpellsText text d) (hdepth : d.nesting < 128)
    (s : Schema) : Schema.read .json text = .ok s ↔ s.Written d := by
  constructor
  · intro hread
    have hjson : Json.read shape text = .ok s := by
      rw [read_json_eq] at hread
      cases h : Json.read shape text with
      | error e =>
        rw [h] at hread
        cases hread
      | ok s' =>
        rw [h] at hread
        cases hread
        rfl
    have hmeans := ((Json.read_eq_ok_iff distinct_shape htext s).mp hjson).1
    exact written_of_means (by rw [Message.depthBound]; omega) hmeans
  · exact read_json_of_written htext hdepth

end Schema

open Json in
/-- A message as an object with its keys in another order and one that is not known, and all else as
arrays; the label of its field is an object. -/
theorem Schema.read_json_eq_ok_iff_mixed :
    let text := "[[\x7b\"x\":1.5,\"fields\":[[\x7b\"optional\":null\x7d,\"T\",\"f\",7]]," ++
      "\"name\":\"M\"\x7d]]"
    ∃ d, SpellsText text d ∧ d.nesting < 128 ∧
      Schema.read .json text = .ok ⟨[{ name := "M", fields := [.optional "T" "f" 7] }], [], []⟩ := by
  intro text
  have hseven := Spells.number
    ⟨false, ['7'], [], [], ⟨⟨by simp, by simp⟩, by simp⟩, .none, .none⟩
  have hreal := Spells.number
    ⟨false, ['1'], ['.', '5'], [], ⟨⟨by simp, by simp⟩, by simp⟩, .point ⟨by simp, by simp⟩, .none⟩
  have hlabel := Spells.object (.single (spellsString_of_plain "optional" (by decide)) .null)
  have hfield := Spells.array (.comma hlabel
    (.comma (.string (spellsString_of_plain "T" (by decide)))
      (.comma (.string (spellsString_of_plain "f" (by decide))) (.single hseven))))
  have hmessage := Spells.object (.comma (spellsString_of_plain "x" (by decide)) hreal
    (.comma (spellsString_of_plain "fields" (by decide)) (.array (.single hfield))
      (.single (spellsString_of_plain "name" (by decide))
        (.string (spellsString_of_plain "M" (by decide))))))
  have htext : SpellsText text _ :=
    ⟨[], _, [], blank_nil, .array (.single (.array (.single hmessage))), blank_nil, by decide⟩
  refine ⟨_, htext, by decide, (Schema.read_json_eq_ok_iff htext (by decide) _).mpr ?_⟩
  refine ⟨some _, none, none, @Datum.Gives.array _ _ 2 rfl, .items (.cons ?_ .nil), .missing,
    .missing⟩
  refine .mk (.object (by decide)) (.items (.cons ?_ .nil)) .missing .missing
  exact ⟨_, _, @Datum.Gives.array _ _ 0 rfl, .object (by decide), rfl⟩

end ProtoScribe

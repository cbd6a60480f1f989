import ProtoScribe.Config
import ProtoScribe.Proofs.Yaml.Glyphs
import ProtoScribe.Proofs.Yaml.Numerals
import ProtoScribe.Proofs.Yaml.Order
import ProtoScribe.Proofs.Yaml.Sense

/-!
# Configuration documents

Which contents of a document are configurations, by rules of their own: a configuration is a mapping
of some of the keys that are known for it to what is written for them, and a key that is absent leaves
the default in place (`Config.Written`). A header and an option have rules of the same kind, but pass
over keys that they do not know.

The reader takes just the texts with such a content, and returns the configuration that it is
(`Config.value?_shape_iff`).
-/

namespace ProtoScribe

open Document (IntegerKind Parts Shape)
open Yaml (Content)
open Yaml.Content (Keyed Reordered slot value? parts?)

/-! ## Values -/

namespace Yaml.Content

variable {α γ : Type}

/-- A scalar of any style is text. -/
def TextWritten (c : Content) (s : String) : Prop := c.name? = some s

/-- A truth value is a plain word. -/
inductive FlagWritten : Content → Bool → Prop where
  | on {word : String} : word ∈ ["true", "True", "TRUE"] → FlagWritten (.scalar true word) true
  | off {word : String} : word ∈ ["false", "False", "FALSE"] → FlagWritten (.scalar true word) false

/-- A value that may be left blank. -/
inductive OptionalWritten (written : Content → α → Prop) : Content → Option α → Prop where
  | nothing {c : Content} : c.IsNothing → OptionalWritten written c none
  | value {c : Content} {a : α} : ¬c.IsNothing → written c a → OptionalWritten written c (some a)

/-- A sequence of what each item of a list is written as. The empty list may be left blank. -/
inductive ListWritten (written : Content → α → Prop) : Content → List α → Prop where
  | blank : ListWritten written (.scalar true "") []
  | items {cs : List Content} {as : List α} : List.Forall₂ written cs as →
    ListWritten written (.sequence cs) as

/-- A mapping of which it is known what is written in it. -/
inductive MappingWritten (written : List (Content × Content) → α → Prop) : Content → α → Prop where
  | pairs {ps : List (Content × Content)} {a : α} :
    written ps a → MappingWritten written (.mapping ps) a

/-- A part is what is given for it, or else its default if it has one. -/
inductive PartWritten (written : Content → α → Prop) (default : Option α) :
    Option Content → α → Prop where
  | absent {a : α} : default = some a → PartWritten written default none a
  | given {c : Content} {a : α} : written c a → PartWritten written default (some c) a

end Yaml.Content

open Yaml.Content

/-! ## Documents -/

/-- A dialect as its word. -/
def Dialect.Written (c : Content) (d : Dialect) : Prop := TextWritten c d.name

/-- An option needs its name and its value. -/
structure FileOption.Written (pairs : List (Content × Content)) (o : FileOption) : Prop where
  keys : Keyed false ["name", "value", "quoted"] pairs
  name : PartWritten TextWritten none (slot pairs "name") o.name
  value : PartWritten TextWritten none (slot pairs "value") o.value
  quoted : PartWritten FlagWritten (some true) (slot pairs "quoted") o.quoted

/-- A header needs nothing. -/
structure Header.Written (pairs : List (Content × Content)) (h : Header) : Prop where
  keys : Keyed false ["syntax", "package", "imports", "options"] pairs
  dialect : PartWritten (OptionalWritten Dialect.Written) (some none) (slot pairs "syntax") h.dialect
  package : PartWritten (OptionalWritten TextWritten) (some none) (slot pairs "package") h.package
  imports : PartWritten (ListWritten TextWritten) (some []) (slot pairs "imports") h.imports
  options : PartWritten (ListWritten (MappingWritten FileOption.Written)) (some [])
    (slot pairs "options") h.options

/-- A width is a plain scalar that spells an unsigned number of 64 bits. -/
inductive Config.WidthWritten : Content → UInt64 → Prop where
  | number {text : String} {width : UInt64} : Yaml.Plain.Unsigned text.toList width.toNat →
    WidthWritten (.scalar true text) width

/-- A configuration needs nothing, and has no other keys. What is absent is as where there is no
configuration at all. -/
structure Config.Written (pairs : List (Content × Content)) (c : Config) : Prop where
  keys : Keyed true ["output_dir", "indent_width", "atomic_writes", "header"] pairs
  outputDir : PartWritten (OptionalWritten TextWritten) (some (({} : Config).outputDir.map Path.text))
    (slot pairs "output_dir") (c.outputDir.map Path.text)
  indentWidth : PartWritten WidthWritten (some ({} : Config).indentWidth)
    (slot pairs "indent_width") c.indentWidth
  atomicWrites : PartWritten FlagWritten (some ({} : Config).atomicWrites)
    (slot pairs "atomic_writes") c.atomicWrites
  header : PartWritten (OptionalWritten (MappingWritten Header.Written)) (some ({} : Config).header)
    (slot pairs "header") c.header

/-! ## Shapes of values -/

namespace Yaml.Content

variable {α γ : Type} {c : Content} {shape : Shape α} {written : Content → α → Prop}

theorem value?_text_iff {expected s : String} :
    value? (.text expected) c = some s ↔ TextWritten c s := by
  rw [value?, TextWritten]

theorem value?_flag_iff {b : Bool} : value? .flag c = some b ↔ FlagWritten c b := by
  rw [value?]
  constructor
  · intro h
    obtain ⟨word, hword, h⟩ := Option.bind_eq_some_iff.mp h
    rw [word?_eq_some_iff.mp hword]
    rw [Plain.flag?] at h
    split at h
    · next hon =>
      cases h
      exact .on (by simpa using hon)
    · split at h
      · next hoff =>
        cases h
        exact .off (by simpa using hoff)
      · cases h
  · rintro (h | h)
    all_goals
      simp only [List.mem_cons, List.not_mem_nil, or_false] at h
      rcases h with rfl | rfl | rfl <;> rfl

theorem value?_optional_iff {a : Option α}
    (h : ∀ a, ¬c.IsNothing → (value? shape c = some a ↔ written c a)) :
    value? (.optional shape) c = some a ↔ OptionalWritten written c a := by
  rw [value?]
  by_cases hc : c.IsNothing
  · rw [if_pos hc, Option.some.injEq]
    constructor
    · rintro rfl
      exact .nothing hc
    · rintro (- | ⟨hsome, -⟩)
      · rfl
      · exact (hsome hc).elim
  · rw [if_neg hc, Option.map_eq_some_iff]
    constructor
    · rintro ⟨a, ha, rfl⟩
      exact .value hc ((h a hc).mp ha)
    · rintro (hnothing | ⟨-, ha⟩)
      · exact (hc hnothing).elim
      · exact ⟨_, (h _ hc).mpr ha, rfl⟩

theorem mapM_eq_some_iff {f : Content → Option α} : ∀ {cs : List Content} {as : List α},
    cs.mapM f = some as ↔ List.Forall₂ (fun c a => f c = some a) cs as
  | [], as => by simp [eq_comm]
  | c :: cs, as => by
    rw [List.mapM_cons, List.forall₂_cons_left_iff]
    simp only [Option.bind_eq_bind, Option.bind_eq_some_iff, mapM_eq_some_iff, Option.pure_def,
      Option.some.injEq]
    constructor
    · rintro ⟨a, ha, as, has, rfl⟩
      exact ⟨a, as, ha, has, rfl⟩
    · rintro ⟨a, as, ha, has, rfl⟩
      exact ⟨a, ha, as, has, rfl⟩

theorem value?_list_iff {as : List α} (h : ∀ c a, value? shape c = some a ↔ written c a) :
    value? (.list shape) c = some as ↔ ListWritten written c as := by
  have hwritten : (fun c a => value? shape c = some a) = written :=
    funext fun c => funext fun a => propext (h c a)
  cases c with
  | sequence items =>
    rw [value?, mapM_eq_some_iff, hwritten]
    exact ⟨.items, fun | .items h => h⟩
  | scalar plain text =>
    simp only [value?, Option.ite_none_right_eq_some, word?_eq_some_iff]
    constructor
    · rintro ⟨hblank, ⟨⟩⟩
      rw [hblank]
      exact .blank
    · rintro (_ | _)
      exact ⟨rfl, rfl⟩
  | mapping pairs => exact ⟨nofun, nofun⟩

/-! ## Shapes of records -/

theorem parts?_part_iff {name : String} {default : Option α} {rest : Parts γ}
    {slots : String → Option Content} {a : α} {g : γ}
    (h : ∀ c a, value? shape c = some a ↔ written c a) :
    parts? (.part name default shape rest) slots = some (a, g) ↔
      PartWritten written default (slots name) a ∧ parts? rest slots = some g := by
  have hpart : (slots name).elim default (value? shape) = some a ↔
      PartWritten written default (slots name) a := by
    cases slots name with
    | none => exact ⟨.absent, fun | .absent h => h⟩
    | some c => exact ⟨fun hc => .given ((h c a).mp hc), fun | .given hc => (h c a).mpr hc⟩
  rw [parts?, Option.bind_eq_some_iff, ← hpart]
  constructor
  · rintro ⟨b, hb, hrest⟩
    obtain ⟨g', hg, heq⟩ := Option.map_eq_some_iff.mp hrest
    cases heq
    exact ⟨hb, hg⟩
  · rintro ⟨ha, hg⟩
    exact ⟨a, ha, Option.map_eq_some_iff.mpr ⟨g, hg, rfl⟩⟩

/-- A mapping means what is built from what its parts mean. -/
theorem value?_mapping_iff {name : String} {closed : Bool} {parts : Parts γ} {build : γ → α}
    {pairs : List (Content × Content)} {a : α} (g : γ) (h : ∀ g', build g' = a ↔ g' = g) :
    value? (.record name closed parts build) (.mapping pairs) = some a ↔
      Keyed closed parts.names pairs ∧ parts? parts (slot pairs) = some g := by
  rw [value?, Option.ite_none_right_eq_some, Option.map_eq_some_iff]
  simp only [h, exists_eq_right]

/-- A record is a mapping, unless it is blank and needs nothing. -/
theorem value?_record_iff {name : String} {closed : Bool} {parts : Parts γ} {build : γ → α} {a : α}
    {written : List (Content × Content) → α → Prop}
    (h : ∀ pairs, value? (.record name closed parts build) (.mapping pairs) = some a ↔ written pairs a)
    (hblank : c.word? = some "" → parts? parts (fun _ => none) = none) :
    value? (.record name closed parts build) c = some a ↔ MappingWritten written c a := by
  cases c with
  | mapping pairs => exact (h pairs).trans ⟨.pairs, fun | .pairs h => h⟩
  | scalar plain text =>
    rw [value?]
    · refine ⟨fun hvalue => ?_, nofun⟩
      obtain ⟨hc, hvalue⟩ := Option.ite_none_right_eq_some.mp hvalue
      rw [hblank hc] at hvalue
      cases hvalue
    · exact nofun
  | sequence items => exact ⟨nofun, nofun⟩

end Yaml.Content

/-! ## The shape of a configuration -/

variable {c : Content} {pairs : List (Content × Content)}

theorem Dialect.value?_words_iff {d : Dialect} :
    value? (.choice words) c = some d ↔ Dialect.Written c d := by
  have hwords (word : String) : words.lookup word = some d ↔ word = d.name := by
    constructor
    · intro h
      have hall : ∀ e ∈ words, e.1 = e.2.name := by decide
      obtain ⟨before, after, hmem, -⟩ := List.lookup_eq_some_iff.mp h
      exact hall (word, d) (by simp [hmem])
    · rintro rfl
      cases d <;> rfl
  rw [value?, Option.bind_eq_some_iff]
  simp only [hwords, exists_eq_right, Dialect.Written, TextWritten]

theorem FileOption.value?_shape_iff {o : FileOption} :
    value? shape c = some o ↔ MappingWritten FileOption.Written c o := by
  refine value?_record_iff (fun pairs => ?_) fun _ => rfl
  rw [value?_mapping_iff (o.name, o.value, o.quoted, ()) (by rintro ⟨_, _, _, ⟨⟩⟩; cases o; simp),
    Parts.string, Parts.string, Parts.flag, Shape.string, parts?_part_iff fun _ _ => value?_text_iff,
    parts?_part_iff fun _ _ => value?_text_iff, parts?_part_iff fun _ _ => value?_flag_iff]
  exact ⟨fun ⟨keys, name, value, quoted, _⟩ => ⟨keys, name, value, quoted⟩,
    fun ⟨keys, name, value, quoted⟩ => ⟨keys, name, value, quoted, rfl⟩⟩

theorem Header.value?_shape_iff {h : Header} (hc : ¬c.IsNothing) :
    value? shape c = some h ↔ MappingWritten Header.Written c h := by
  have hdialect (c : Content) (d : Option Dialect) :
      value? (.optional (.choice Dialect.words)) c = some d ↔ OptionalWritten Dialect.Written c d :=
    value?_optional_iff fun _ _ => Dialect.value?_words_iff
  have hpackage (c : Content) (package : Option String) :
      value? (.optional Shape.string) c = some package ↔ OptionalWritten TextWritten c package :=
    value?_optional_iff fun _ _ => value?_text_iff
  have himports (c : Content) (imports : List String) :
      value? (.list Shape.string) c = some imports ↔ ListWritten TextWritten c imports :=
    value?_list_iff fun _ _ => value?_text_iff
  have hoptions (c : Content) (options : List FileOption) :
      value? (.list FileOption.shape) c = some options ↔
        ListWritten (MappingWritten FileOption.Written) c options :=
    value?_list_iff fun _ _ => FileOption.value?_shape_iff
  refine value?_record_iff (fun pairs => ?_) fun hblank => (hc ⟨"", hblank, .inl rfl⟩).elim
  rw [value?_mapping_iff (h.dialect, h.package, h.imports, h.options, ())
      (by rintro ⟨_, _, _, _, ⟨⟩⟩; cases h; simp),
    Parts.list, Parts.list, parts?_part_iff hdialect, parts?_part_iff hpackage,
    parts?_part_iff himports, parts?_part_iff hoptions]
  exact ⟨fun ⟨keys, dialect, package, imports, options, _⟩ =>
      ⟨keys, dialect, package, imports, options⟩,
    fun ⟨keys, dialect, package, imports, options⟩ =>
      ⟨keys, dialect, package, imports, options, rfl⟩⟩

namespace Config

theorem ofInt?_widths {n : Nat} {width : UInt64} (h : n < UInt64.size) :
    widths.ofInt? n = some width ↔ n = width.toNat := by
  have hrange : widths.least ≤ n ∧ (n : Int) ≤ widths.greatest := by
    change (0 : Int) ≤ n ∧ (n : Int) ≤ (UInt64.size : Int) - 1
    omega
  rw [IntegerKind.ofInt?, if_pos hrange, Option.some.injEq]
  change UInt64.ofNat n = width ↔ _
  constructor
  · rintro rfl
    exact (UInt64.toNat_ofNat_of_lt h).symm
  · rintro rfl
    exact UInt64.ofNat_toNat

/-- Of the numbers that are spelled, those of 64 bits are read. -/
theorem narrowInteger?_widths_iff {text : String} {width : UInt64} :
    (Yaml.LinkedNode.narrowInteger? widths.isSigned text).bind widths.ofInt? = some width ↔
      Yaml.Plain.Unsigned text.toList width.toNat := by
  have hsigned : widths.isSigned = false := rfl
  rw [← Yaml.Plain.unsigned?_eq_some_iff, hsigned, Yaml.LinkedNode.narrowInteger?,
    if_neg Bool.false_ne_true]
  cases Yaml.Plain.unsigned? text.toList with
  | none => simp
  | some n =>
    rw [Option.map_some, Option.filter_some, Option.some.injEq]
    by_cases hn : n < UInt64.size
    · have hfits : Int.ofNat n < (UInt64.size : Int) := Int.ofNat_lt.mpr hn
      rw [if_pos (decide_eq_true hfits), Option.bind_some]
      exact ofInt?_widths hn
    · rw [if_neg (by simpa using hn), Option.bind_none]
      refine ⟨nofun, ?_⟩
      rintro rfl
      exact (hn width.toNat_lt_size).elim

theorem value?_widths_iff {width : UInt64} :
    value? (.integer widths) c = some width ↔ WidthWritten c width := by
  rw [value?, Option.bind_assoc, Option.bind_eq_some_iff]
  simp only [narrowInteger?_widths_iff, word?_eq_some_iff]
  constructor
  · rintro ⟨text, rfl, h⟩
    exact .number h
  · rintro ⟨h⟩
    exact ⟨_, rfl, h⟩

/-- A mapping means the configuration that is written in it. -/
theorem value?_shape_iff {config : Config} :
    value? shape (.mapping pairs) = some config ↔ config.Written pairs := by
  have houtputDir (c : Content) (dir : Option String) :
      value? (.optional (.text "path string")) c = some dir ↔ OptionalWritten TextWritten c dir :=
    value?_optional_iff fun _ _ => value?_text_iff
  have hheader (c : Content) (h : Option Header) :
      value? (.optional Header.shape) c = some h ↔
        OptionalWritten (MappingWritten Header.Written) c h :=
    value?_optional_iff fun _ => Header.value?_shape_iff
  have hbuild (parts : Option String × UInt64 × Bool × Option Header × Unit) :
      ({ outputDir := parts.1.map Path.mk, indentWidth := parts.2.1, atomicWrites := parts.2.2.1,
         header := parts.2.2.2.1 } : Config) = config ↔
        parts = (config.outputDir.map Path.text, config.indentWidth, config.atomicWrites,
          config.header, ()) := by
    obtain ⟨dir, width, atomic, header, ⟨⟩⟩ := parts
    rcases config with ⟨_ | ⟨⟨dir'⟩⟩, _, _, _⟩ <;> cases dir <;> simp
  rw [shape, value?_mapping_iff _ hbuild, Parts.flag, parts?_part_iff houtputDir,
    parts?_part_iff fun _ _ => value?_widths_iff, parts?_part_iff fun _ _ => value?_flag_iff,
    parts?_part_iff hheader]
  exact ⟨fun ⟨keys, outputDir, indentWidth, atomicWrites, header, _⟩ =>
      ⟨keys, outputDir, indentWidth, atomicWrites, header⟩,
    fun ⟨keys, outputDir, indentWidth, atomicWrites, header⟩ =>
      ⟨keys, outputDir, indentWidth, atomicWrites, header, rfl⟩⟩

/-! ## Texts -/

theorem distinct_shape : Json.Distinct shape := by
  simp [shape, Header.shape, FileOption.shape, Parts.string, Parts.list, Parts.flag, Shape.string,
    Json.Distinct, Json.PartsDistinct, Parts.names]

theorem shallow_shape : Yaml.LinkedNode.Shallow shape Yaml.depthLimit := by
  simp [shape, Header.shape, FileOption.shape, Parts.string, Parts.list, Parts.flag, Shape.string,
    Yaml.LinkedNode.Shallow, Yaml.LinkedNode.PartsShallow, Yaml.depthLimit]

theorem toOption_read (text : String) (path : Path) :
    (read text path).toOption = (Yaml.read shape text).toOption := by
  rw [read]
  cases Yaml.read shape text <;> rfl

theorem message_of_read_eq_error (text : String) : ∃ cause : String, ∀ (path : Path) (e : Error),
    read text path = .error e → e.message = "invalid config '" ++ path.text ++ "': " ++ cause := by
  cases h : Yaml.read shape text with
  | ok c =>
    refine ⟨"", fun path e he => ?_⟩
    rw [read, h] at he
    cases he
  | error cause =>
    refine ⟨cause.message, fun path e he => ?_⟩
    rw [read, h] at he
    cases he
    rfl

/-- **A text is read just where its content is a configuration, and as that.** The order of keys and
the path have no part in that; the path is only named in the message. -/
theorem read_eq_ok_iff_written {text : String} (h : Yaml.content? text = some (.mapping pairs)) :
    (∀ path config, read text path = .ok config ↔ config.Written pairs) ∧
    (∀ text' content, Yaml.content? text' = some content → Reordered (.mapping pairs) content →
      ∀ path, (read text' path).toOption = (read text path).toOption) ∧
    ∃ cause : String, ∀ path e, read text path = .error e →
      e.message = "invalid config '" ++ path.text ++ "': " ++ cause := by
  have hread := Yaml.toOption_read distinct_shape shallow_shape h
  refine ⟨fun path config => ?_, fun text' content h' hreordered path => ?_,
    message_of_read_eq_error text⟩
  · rw [← value?_shape_iff, ← hread, ← toOption_read text path]
    cases read text path <;> simp [Except.toOption]
  · rw [toOption_read, toOption_read, Yaml.toOption_read distinct_shape shallow_shape h', hread]
    exact (value?_of_reordered hreordered _ _).symm

/-- Two keys in either order, one for a number in hexadecimal and one for a header that knows nothing
of what is in it. -/
theorem read_either_order :
    (∀ path, read "{header: {color: red}, indent_width: 0x1F}" path
      = .ok { indentWidth := 31, header := some {} }) ∧
    ∀ path, (read "{indent_width: 0x1F, header: {color: red}}" path).toOption
      = some { indentWidth := 31, header := some {} } := by
  have hfirst : Yaml.content? "{header: {color: red}, indent_width: 0x1F}"
      = some (.mapping [(.scalar true "header", .mapping [(.scalar true "color", .scalar true "red")]),
          (.scalar true "indent_width", .scalar true "0x1F")]) := by
    have hglyphs : Yaml.glyphs? "{header: {color: red}, indent_width: 0x1F}" = _ :=
      Yaml.glyphs?_of_printable (by simp [Yaml.IsPrintable])
    rw [Yaml.content?, Yaml.Document.ofText?, hglyphs]
    cbv
  have hsecond : Yaml.content? "{indent_width: 0x1F, header: {color: red}}"
      = some (.mapping [(.scalar true "indent_width", .scalar true "0x1F"),
          (.scalar true "header", .mapping [(.scalar true "color", .scalar true "red")])]) := by
    have hglyphs : Yaml.glyphs? "{indent_width: 0x1F, header: {color: red}}" = _ :=
      Yaml.glyphs?_of_printable (by simp [Yaml.IsPrintable])
    rw [Yaml.content?, Yaml.Document.ofText?, hglyphs]
    cbv
  have hone : Yaml.Plain.Digits 16 ['1'] 1 := .one rfl (by decide)
  have hdigits : Yaml.Plain.Digits 16 (['1'] ++ ['F']) (1 * 16 + 15) := .more hone rfl (by decide)
  have hwidth : Yaml.Plain.Unsigned "0x1F".toList 31 := .bare (.hexadecimal hdigits)
  have hread (path : Path) : read "{header: {color: red}, indent_width: 0x1F}" path
      = .ok { indentWidth := 31, header := some {} } :=
    ((read_eq_ok_iff_written hfirst).1 path _).mpr
      { keys := by decide
        outputDir := .absent rfl
        indentWidth := .given (.number hwidth)
        atomicWrites := .absent rfl
        header := .given (.value (by decide) (.pairs
          { keys := by decide
            dialect := .absent rfl
            package := .absent rfl
            imports := .absent rfl
            options := .absent rfl })) }
  refine ⟨hread, fun path => ?_⟩
  rw [(read_eq_ok_iff_written hfirst).2.1 _ _ hsecond (.pairs (.swap _ _ _)) path, hread]
  rfl

/-- A key that is no scalar is not passed over as an unknown one. The header that it stands in has
nothing under the keys that are known for a header, and still it is refused. -/
theorem read_refuses_sequence_key :
    ∃ pairs, Yaml.content? "header: {? [a] : b}"
        = some (.mapping [(.scalar true "header", .mapping pairs)]) ∧
      (∀ name ∈ ["syntax", "package", "imports", "options"], slot pairs name = none) ∧
      ∀ path, read "header: {? [a] : b}" path = .error (.invalid path
        (.complaint (.wrongType .sequence "field identifier")
          (some ⟨[.key "header"], ⟨11, 0, 11⟩⟩))) := by
  have hglyphs : Yaml.glyphs? "header: {? [a] : b}" = _ :=
    Yaml.glyphs?_of_printable (by simp [Yaml.IsPrintable])
  refine ⟨[(.sequence [.scalar true "a"], .scalar true "b")], ?_, by decide, fun path => ?_⟩
  · rw [Yaml.content?, Yaml.Document.ofText?, hglyphs]
    cbv
  · rw [read, Yaml.read, Yaml.Document.ofText?, hglyphs]
    cbv

end Config

end ProtoScribe

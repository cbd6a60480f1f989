import Mathlib
import ProtoScribe.Schema.Source

/-!
# The lines of proto source

Rendered text, cut at its line breaks, gives back the lines that were rendered, each behind its
indentation. That holds as long as no line has a break of its own, and a schema's lines have none
if its names have none.

* `lines_join` — cutting is the inverse of ending each line with a break
* `unbroken_of_mem_lines` — a line of a schema breaks only inside a name
* `lines_of_render` — what the text of a schema is cut into
-/

namespace ProtoScribe

/-! ## Cutting at line breaks -/

/-- The lines of a text. What follows the last line break is a line unless it is empty. -/
def Text.lines (s : String) : List String :=
  let pieces := (s.toList.splitOn '\n').map String.ofList
  if pieces.getLast? = some "" then pieces.dropLast else pieces

/-- A text without a line break. -/
def Text.Unbroken (s : String) : Prop := '\n' ∉ s.toList

instance (s : String) : Decidable (Text.Unbroken s) := inferInstanceAs (Decidable (_ ∉ _))

namespace Text

@[simp] theorem unbroken_append {a b : String} : Unbroken (a ++ b) ↔ Unbroken a ∧ Unbroken b := by
  simp [Unbroken]

/-- The pieces of ended lines are the lines, and nothing after the last break. -/
theorem splitOn_join : ∀ ls : List String, (∀ l ∈ ls, Unbroken l) →
    (String.join (ls.map (· ++ "\n"))).toList.splitOn '\n' = ls.map String.toList ++ [[]]
  | [], _ => by simp
  | l :: ls, h => by
    have hl : '\n' ∉ l.toList := h l List.mem_cons_self
    have ih := splitOn_join ls fun x hx => h x (List.mem_cons_of_mem _ hx)
    have hcons : (String.join ((l :: ls).map (· ++ "\n"))).toList
        = l.toList ++ '\n' :: (String.join (ls.map (· ++ "\n"))).toList := by
      simp [String.join_cons]
    rw [hcons, List.splitOn_append_cons_self, List.splitOn_eq_singleton hl, ih]
    simp

/-- Cutting a text at its breaks is the inverse of ending each line with one. -/
theorem lines_join {ls : List String} (h : ∀ l ∈ ls, Unbroken l) :
    lines (String.join (ls.map (· ++ "\n"))) = ls := by
  have hp : ((String.join (ls.map (· ++ "\n"))).toList.splitOn '\n').map String.ofList
      = ls ++ [""] := by
    rw [splitOn_join ls h]
    simp
  simp only [lines, hp]
  simp

/-- Decimal digits are all that a number is written with. -/
theorem not_mem_toString_nat {c : Char} (hc : c.isDigit = false) (n : Nat) :
    c ∉ (toString n).toList := by
  intro h
  rw [Nat.toString_eq_ofList_toDigits, String.toList_ofList] at h
  rw [Nat.isDigit_of_mem_toDigits (by decide) (by decide) h] at hc
  exact absurd hc (by decide)

/-- A signed number is written with digits and perhaps a sign. -/
theorem not_mem_toString_int {c : Char} (hc : c.isDigit = false) (hs : c ≠ '-') (i : Int) :
    c ∉ (toString i).toList := by
  cases i with
  | ofNat n => exact not_mem_toString_nat hc n
  | negSucc n =>
    show c ∉ ("-" ++ toString (n + 1)).toList
    rw [String.toList_append, List.mem_append]
    rintro (h | h)
    · exact hs (by simpa using h)
    · exact not_mem_toString_nat hc _ h

end Text

/-! ## Names in a schema -/

/-- The type's name and the field's. -/
def Field.names (f : Field) : List String := [f.typeName, f.name]

/-- The enum's name and its values' names. -/
def Enum.names (e : Enum) : List String := e.name :: e.values.map EnumValue.name

mutual

/-- The message's name and all names in it. -/
def Message.names : Message → List String
  | ⟨name, fields, enums, messages⟩ =>
    name :: (fields.flatMap Field.names ++ enums.flatMap Enum.names ++ Message.listNames messages)

/-- All names in messages. -/
def Message.listNames : List Message → List String
  | [] => []
  | m :: ms => m.names ++ Message.listNames ms

end

theorem Message.listNames_eq_flatMap : ∀ ms : List Message,
    Message.listNames ms = ms.flatMap Message.names
  | [] => rfl
  | m :: ms => by rw [Message.listNames, listNames_eq_flatMap ms, List.flatMap_cons]

/-- The call's name and the names of its two types. -/
def Method.names (m : Method) : List String := [m.name, m.input, m.output]

/-- The service's name and all names in it. -/
def Service.names (d : Service) : List String := d.name :: d.methods.flatMap Method.names

/-- All names and type names in a schema. -/
def Schema.names (s : Schema) : List String :=
  Message.listNames s.messages ++ s.enums.flatMap Enum.names ++ s.services.flatMap Service.names

/-! ## Lines break only inside names -/

open Source Text

theorem Message.listLines_eq_flatMap (d : Nat) : ∀ ms : List Message,
    Message.listLines d ms = ms.flatMap (Message.lines d)
  | [] => rfl
  | m :: ms => by rw [Message.listLines, listLines_eq_flatMap d ms, List.flatMap_cons]

/-- A block is its opening line, its body and its closing line. -/
theorem Source.mem_block {depth : Nat} {keyword name : String} {body : List Line} {l : Line} :
    l ∈ block depth keyword name body ↔
      l = ⟨depth, keyword ++ " " ++ name ++ " \x7b"⟩ ∨ l ∈ body ∨ l = ⟨depth, "\x7d"⟩ := by
  simp [block]

theorem Field.unbroken_text {f : Field} (h : ∀ n ∈ f.names, Unbroken n) : Unbroken f.text := by
  obtain ⟨ht, hn⟩ : Unbroken f.typeName ∧ Unbroken f.name := by simpa [names] using h
  have hk : Unbroken (f.label.keyword.elim "" (· ++ " ")) := by
    cases f.label <;> decide
  simp only [text, unbroken_append]
  exact ⟨⟨⟨⟨⟨⟨hk, ht⟩, by decide⟩, hn⟩, by decide⟩, not_mem_toString_nat (by decide) _⟩, by decide⟩

theorem EnumValue.unbroken_text {v : EnumValue} (h : Unbroken v.name) : Unbroken v.text := by
  simp only [text, unbroken_append]
  exact ⟨⟨⟨h, by decide⟩, not_mem_toString_int (by decide) (by decide) _⟩, by decide⟩

theorem Method.unbroken_text {m : Method} (h : ∀ n ∈ m.names, Unbroken n) : Unbroken m.text := by
  obtain ⟨hn, hi, ho⟩ : Unbroken m.name ∧ Unbroken m.input ∧ Unbroken m.output := by
    simpa [names] using h
  have hs (streams : Bool) : Unbroken (if streams then "stream " else "") := by
    cases streams <;> decide
  simp only [text, typeText, unbroken_append]
  exact ⟨⟨⟨⟨⟨⟨by decide, hn⟩, by decide⟩, hs _, hi⟩, by decide⟩, hs _, ho⟩, by decide⟩

theorem Source.unbroken_open {keyword name : String} (hk : Unbroken keyword) (hn : Unbroken name) :
    Unbroken (keyword ++ " " ++ name ++ " \x7b") := by
  simp only [unbroken_append]
  exact ⟨⟨⟨hk, by decide⟩, hn⟩, by decide⟩

theorem Source.unbroken_close : Unbroken "\x7d" := by decide

theorem Enum.unbroken_of_mem_lines {e : Enum} {d : Nat} (h : ∀ n ∈ e.names, Unbroken n) :
    ∀ l ∈ e.lines d, Unbroken l.text := by
  obtain ⟨hn, hv⟩ := List.forall_mem_cons.mp h
  intro l hl
  rcases mem_block.mp hl with rfl | hl | rfl
  · exact unbroken_open (by decide) hn
  · obtain ⟨v, hm, rfl⟩ := List.mem_map.mp hl
    exact v.unbroken_text (hv _ (List.mem_map_of_mem hm))
  · exact unbroken_close

mutual

theorem Message.unbroken_of_mem_lines : ∀ (m : Message) (d : Nat), (∀ n ∈ m.names, Unbroken n) →
    ∀ l ∈ m.lines d, Unbroken l.text
  | ⟨name, fields, enums, messages⟩, d, h, l, hl => by
    simp only [names, List.forall_mem_cons, List.forall_mem_append] at h
    obtain ⟨hn, ⟨hf, he⟩, hm⟩ := h
    rw [lines, mem_block] at hl
    rcases hl with rfl | hl | rfl
    · exact unbroken_open (by decide) hn
    · simp only [List.mem_append, List.mem_map, List.mem_flatMap] at hl
      rcases hl with (⟨f, hfm, rfl⟩ | ⟨e, hem, hl⟩) | hl
      · exact f.unbroken_text fun n hfn => hf n (List.mem_flatMap.mpr ⟨f, hfm, hfn⟩)
      · exact e.unbroken_of_mem_lines (fun n hen => he n (List.mem_flatMap.mpr ⟨e, hem, hen⟩)) l hl
      · exact Message.unbroken_of_mem_listLines messages (d + 1) hm l hl
    · exact unbroken_close

theorem Message.unbroken_of_mem_listLines : ∀ (ms : List Message) (d : Nat),
    (∀ n ∈ Message.listNames ms, Unbroken n) → ∀ l ∈ Message.listLines d ms, Unbroken l.text
  | [], _, _, _, hl => by simp [Message.listLines] at hl
  | m :: ms, d, h, l, hl => by
    simp only [Message.listNames, List.forall_mem_append] at h
    rw [Message.listLines, List.mem_append] at hl
    rcases hl with hl | hl
    · exact Message.unbroken_of_mem_lines m d h.1 l hl
    · exact Message.unbroken_of_mem_listLines ms d h.2 l hl

end

theorem Service.unbroken_of_mem_lines {s : Service} (h : ∀ n ∈ s.names, Unbroken n) :
    ∀ l ∈ s.lines, Unbroken l.text := by
  obtain ⟨hn, hm⟩ := List.forall_mem_cons.mp h
  intro l hl
  rcases mem_block.mp hl with rfl | hl | rfl
  · exact unbroken_open (by decide) hn
  · obtain ⟨m, hmm, rfl⟩ := List.mem_map.mp hl
    exact m.unbroken_text fun n hn => hm n (List.mem_flatMap.mpr ⟨m, hmm, hn⟩)
  · exact unbroken_close

/-- A line of a schema breaks only inside a name. -/
theorem Schema.unbroken_of_mem_lines {s : Schema} (h : ∀ n ∈ s.names, Unbroken n) :
    ∀ l ∈ s.lines, Unbroken l.text := by
  have blank : Unbroken Line.blank.text := by decide
  simp only [names, Message.listNames_eq_flatMap, List.forall_mem_append] at h
  obtain ⟨⟨hm, he⟩, hd⟩ := h
  intro l hl
  simp only [lines, List.mem_append, List.mem_flatMap, List.mem_singleton] at hl
  rcases hl with (⟨m, hmm, hl | rfl⟩ | ⟨e, hem, hl | rfl⟩) | ⟨d, hdm, hl | rfl⟩
  · exact m.unbroken_of_mem_lines 0 (fun n hn => hm n (List.mem_flatMap.mpr ⟨m, hmm, hn⟩)) l hl
  · exact blank
  · exact e.unbroken_of_mem_lines (fun n hn => he n (List.mem_flatMap.mpr ⟨e, hem, hn⟩)) l hl
  · exact blank
  · exact d.unbroken_of_mem_lines (fun n hn => hd n (List.mem_flatMap.mpr ⟨d, hdm, hn⟩)) l hl
  · exact blank

/-- The text of a schema is cut into its lines, each behind its indentation. -/
theorem Schema.lines_of_render {s : Schema} {width : Nat} {t : String}
    (h : ∀ n ∈ s.names, Unbroken n) (ht : s.render width = .ok t) :
    Text.lines t = s.lines.map (Line.indented width) := by
  obtain ⟨-, rfl⟩ := render_eq_ok_iff.mp ht
  have hj : Source.text width s.lines
      = String.join ((s.lines.map (Line.indented width)).map (· ++ "\n")) := by
    rw [Source.text, List.map_map]
    rfl
  rw [hj, Text.lines_join]
  intro l hl
  obtain ⟨l, hm, rfl⟩ := List.mem_map.mp hl
  refine unbroken_append.mpr ⟨?_, s.unbroken_of_mem_lines h l hm⟩
  simp [Unbroken, spaces]

end ProtoScribe

import ProtoScribe.Proofs.Source.Depth
import ProtoScribe.Proofs.Source.Width

/-!
# The text of a schema lists the schema

What a schema declares can be listed in the order of declaration: a definition, then what stands in
it. The text of the schema is that list. Leaving out the blank lines and the lines that close a
block, and the indentation that the blocks ask for, each remaining line is the text of one item, and
the items come in the order of the tree (`Schema.listing_eq_items`).

`Lists ls items closings blanks` says of lines what they are made of: one line for each item, so
many lines that close a block and so many blank ones. Appending adds up all three, so each
definition's lines have it by one case per kind of definition, and every count of lines follows.
-/

namespace ProtoScribe

open Source Text

/-! ## What a schema declares -/

/-- What one line of a schema declares. -/
inductive Source.Item where
  | message (name : String)
  | field (f : Field)
  | enum (name : String)
  | value (v : EnumValue)
  | service (name : String)
  | method (m : Method)
  deriving DecidableEq

/-- The line of an item, without its indentation. -/
def Source.Item.text : Item → String
  | .message name => "message" ++ " " ++ name ++ " \x7b"
  | .field f => f.text
  | .enum name => "enum" ++ " " ++ name ++ " \x7b"
  | .value v => v.text
  | .service name => "service" ++ " " ++ name ++ " \x7b"
  | .method m => m.text

/-- An enum, then its values. -/
def Enum.items (e : Enum) : List Item := .enum e.name :: e.values.map .value

mutual

/-- A message, then its fields, then all that its enums and its messages declare. -/
def Message.items : Message → List Item
  | ⟨name, fields, enums, messages⟩ =>
    .message name ::
      (fields.map .field ++ enums.flatMap Enum.items ++ Message.listItems messages)

/-- What messages declare, one after the other. -/
def Message.listItems : List Message → List Item
  | [] => []
  | m :: ms => m.items ++ Message.listItems ms

end

/-- A service, then its methods. -/
def Service.items (d : Service) : List Item := .service d.name :: d.methods.map .method

/-- All that a schema declares, in the order of declaration. -/
def Schema.items (s : Schema) : List Item :=
  Message.listItems s.messages ++ s.enums.flatMap Enum.items ++ s.services.flatMap Service.items

/-! ## How much it declares -/

mutual

/-- The number of messages and enums at all depths of a message, itself included. -/
def Message.definitions : Message → Nat
  | ⟨_, _, enums, messages⟩ => enums.length + Message.listDefinitions messages + 1

/-- The number of messages and enums at all depths of messages. -/
def Message.listDefinitions : List Message → Nat
  | [] => 0
  | m :: ms => m.definitions + Message.listDefinitions ms

end

mutual

/-- The number of fields and enum values at all depths of a message. -/
def Message.statements : Message → Nat
  | ⟨_, fields, enums, messages⟩ =>
    fields.length + (enums.map (·.values.length)).sum + Message.listStatements messages

/-- The number of fields and enum values at all depths of messages. -/
def Message.listStatements : List Message → Nat
  | [] => 0
  | m :: ms => m.statements + Message.listStatements ms

end

/-- The number of messages, enums and services at all depths. -/
def Schema.definitions (s : Schema) : Nat :=
  Message.listDefinitions s.messages + s.enums.length + s.services.length

/-- The number of fields, enum values and methods at all depths. -/
def Schema.statements (s : Schema) : Nat :=
  Message.listStatements s.messages + (s.enums.map (·.values.length)).sum
    + (s.services.map (·.methods.length)).sum

/-- The number of definitions at the top. -/
def Schema.toplevel (s : Schema) : Nat :=
  s.messages.length + s.enums.length + s.services.length

/-! ## How many lines that takes -/

theorem Source.length_block {depth : Nat} {keyword name : String} {body : List Line} :
    (block depth keyword name body).length = body.length + 2 := by
  simp [block]

theorem Enum.length_lines (e : Enum) (d : Nat) : (e.lines d).length = e.values.length + 2 := by
  rw [lines, length_block, List.length_map]

theorem Service.length_lines (d : Service) : d.lines.length = d.methods.length + 2 := by
  rw [lines, length_block, List.length_map]

mutual

/-- Two lines for each definition, and one for each statement. -/
theorem Message.length_lines : ∀ (m : Message) (d : Nat),
    (m.lines d).length = 2 * m.definitions + m.statements
  | ⟨name, fields, enums, messages⟩, d => by
    have he : (enums.flatMap (Enum.lines (d + 1))).length
        = (enums.map (·.values.length)).sum + enums.length * 2 := by
      simp [List.length_flatMap, Enum.length_lines, List.sum_map_add]
    simp only [Message.lines, definitions, statements, length_block, List.length_append,
      List.length_map, he, Message.length_listLines messages (d + 1)]
    omega

theorem Message.length_listLines : ∀ (ms : List Message) (d : Nat),
    (Message.listLines d ms).length = 2 * Message.listDefinitions ms + Message.listStatements ms
  | [], _ => rfl
  | m :: ms, d => by
    simp only [Message.listLines, Message.listDefinitions, Message.listStatements,
      List.length_append, Message.length_lines m d, Message.length_listLines ms d]
    omega

end

/-- A blank line more for each definition at the top. -/
theorem Schema.length_lines (s : Schema) :
    s.lines.length = 2 * s.definitions + s.statements + s.toplevel := by
  have hm : (s.messages.flatMap fun m => m.lines 0 ++ [Line.blank]).length
      = (Message.listLines 0 s.messages).length + s.messages.length := by
    simp [Message.listLines_eq_flatMap, List.length_flatMap, List.sum_map_add]
  simp only [lines, definitions, statements, toplevel, List.length_append, hm,
    Message.length_listLines]
  simp only [List.length_flatMap, List.length_append, List.length_singleton, Enum.length_lines,
    Service.length_lines, List.sum_map_add, List.map_const', List.sum_replicate, smul_eq_mul]
  omega

/-! ## What a text lists -/

namespace Source

/-- A line without anything but spaces. -/
def isBlank (line : String) : Bool := line.toList.all (· = ' ')

/-- What follows the given number of spaces in a line that begins with so many. -/
def unindent? (columns : Nat) (line : String) : Option String :=
  ((List.replicate columns ' ').isPrefixOf? line.toList).map String.ofList

/-- What the lines of a text declare: those that are not blank and close no block, each without the
indentation of the blocks that it stands in. A line that is indented less is listed as `none`. -/
def listing (width : Nat) (t : String) : List (Option String) :=
  let lines := Text.lines t
  lines.zipIdx.filterMap fun (line, i) =>
    if isBlank line || closes line then none
    else some (unindent? ((depthAt lines i).toNat * width) line)

theorem unindent?_indented (width : Nat) (l : Line) :
    unindent? (l.depth * width) (l.indented width) = some l.text := by
  have h : (List.replicate (l.depth * width) ' ').isPrefixOf? (l.indented width).toList
      = some l.text.toList := by
    rw [List.isPrefixOf?_eq_some_iff_append_eq]
    simp [Line.indented, spaces]
  simp [unindent?, h]

/-- A line is blank if its text is, however it is indented. -/
theorem isBlank_indented (width : Nat) (l : Line) :
    isBlank (l.indented width) = isBlank l.text := by
  simp [isBlank, Line.indented, spaces]

theorem isBlank_append (a b : String) : isBlank (a ++ b) = (isBlank a && isBlank b) := by
  simp [isBlank]

theorem isBlank_blank : isBlank Line.blank.text = true := by decide

/-- The line of an item is neither blank nor the end of a block, whatever names are in it. -/
theorem Item.isBlank_text (item : Item) : isBlank item.text = false := by
  have opening : isBlank " \x7b" = false := by decide
  have ending : isBlank ";" = false := by decide
  have calling : isBlank ");" = false := by decide
  cases item <;>
    simp [text, Field.text, EnumValue.text, Method.text, isBlank_append, opening, ending, calling]

theorem Item.closes_indented (width depth : Nat) (item : Item) :
    closes (Line.indented width ⟨depth, item.text⟩) = false := by
  cases item with
  | message | enum | service => exact closes_open width depth _
  | field | value | method => exact (Line.Inert.of_semicolon _ (by decide)).closes_eq width

/-- The lines are one for each item, in order, so many that close a block and so many blank ones. -/
inductive Lists : List Line → List Item → (closings blanks : Nat) → Prop where
  | nil : Lists [] [] 0 0
  | item {ls : List Line} {items : List Item} {closings blanks : Nat} (depth : Nat) (item : Item)
      (rest : Lists ls items closings blanks) :
      Lists (⟨depth, item.text⟩ :: ls) (item :: items) closings blanks
  | closing {ls : List Line} {items : List Item} {closings blanks : Nat} (depth : Nat)
      (rest : Lists ls items closings blanks) :
      Lists (⟨depth, "\x7d"⟩ :: ls) items (closings + 1) blanks
  | blank {ls : List Line} {items : List Item} {closings blanks : Nat}
      (rest : Lists ls items closings blanks) :
      Lists (.blank :: ls) items closings (blanks + 1)

namespace Lists

variable {ls : List Line} {items : List Item} {closings blanks : Nat}

theorem append {ls' : List Line} {items' : List Item} {closings' blanks' : Nat}
    (h : Lists ls items closings blanks) (h' : Lists ls' items' closings' blanks') :
    Lists (ls ++ ls') (items ++ items') (closings + closings') (blanks + blanks') := by
  induction h with
  | nil => simpa using h'
  | item depth i _ ih => exact .item depth i ih
  | closing depth _ ih =>
    rw [Nat.add_right_comm]
    exact .closing depth ih
  | blank _ ih =>
    rw [Nat.add_right_comm]
    exact .blank ih

/-- Statements at one depth are items, and nothing else. -/
theorem statements {α : Type} {f : α → Item} (depth : Nat) : ∀ xs : List α,
    Lists (xs.map fun x => ⟨depth, (f x).text⟩) (xs.map f) 0 0
  | [] => .nil
  | x :: xs => .item depth (f x) (statements depth xs)

/-- What is made alike of each of some things adds up. -/
theorem flatMap {α : Type} {f : α → List Line} {g : α → List Item} {closings : α → Nat}
    {blanks : Nat} : ∀ xs : List α, (∀ x ∈ xs, Lists (f x) (g x) (closings x) blanks) →
      Lists (xs.flatMap f) (xs.flatMap g) (xs.map closings).sum (xs.length * blanks)
  | [], _ => by simpa using nil
  | x :: xs, h => by
    have ih := flatMap xs fun y hy => h y (List.mem_cons_of_mem _ hy)
    have := (h x List.mem_cons_self).append ih
    rwa [List.flatMap_cons, List.flatMap_cons, List.map_cons, List.sum_cons, List.length_cons,
      Nat.succ_mul, Nat.add_comm _ blanks]

/-- A block adds the item that opens it in front, and closes once more. -/
theorem block {depth : Nat} {keyword name : String} (item : Item)
    (hitem : item.text = keyword ++ " " ++ name ++ " \x7b") (h : Lists ls items closings blanks) :
    Lists (block depth keyword name ls) (item :: items) (closings + 1) blanks := by
  have := Lists.item depth item (h.append (.closing depth .nil))
  rw [hitem, List.append_nil] at this
  exact this

/-! ### What follows for the text -/

/-- What is left of the lines is the text of the items. -/
theorem filterMap_text (width : Nat) (h : Lists ls items closings blanks) :
    ls.filterMap (fun l => if isBlank (l.indented width) || closes (l.indented width) then none
      else some (some l.text)) = items.map (some ·.text) := by
  induction h with
  | nil => rfl
  | item depth i _ ih =>
    rw [List.filterMap_cons_some (b := some i.text), ih, List.map_cons]
    simp [isBlank_indented, i.isBlank_text, i.closes_indented]
  | closing depth _ ih =>
    rw [List.filterMap_cons_none, ih]
    simp [closes_close]
  | blank _ ih =>
    rw [List.filterMap_cons_none, ih]
    simp [isBlank_indented, isBlank_blank]

theorem countP_closes (width : Nat) (h : Lists ls items closings blanks) :
    (ls.map (Line.indented width)).countP closes = closings := by
  induction h with
  | nil => rfl
  | item depth i _ ih => simp [i.closes_indented, ih]
  | closing depth _ ih => simp [closes_close, ih]
  | blank _ ih => simp [Line.Inert.blank.closes_eq, ih]

/-- Where no line is blank, none looks so. -/
theorem isBlank_eq_false (h : Lists ls items closings 0) (width : Nat) :
    ∀ l ∈ ls, isBlank (l.indented width) = false := by
  generalize hb : 0 = blanks at h
  induction h with
  | nil => simp
  | item depth i _ ih =>
    refine List.forall_mem_cons.mpr ⟨?_, ih hb⟩
    rw [isBlank_indented]
    exact i.isBlank_text
  | closing depth _ ih =>
    refine List.forall_mem_cons.mpr ⟨?_, ih hb⟩
    exact (isBlank_indented width _).trans (by decide : isBlank "\x7d" = false)
  | blank => cases hb

end Lists

/-- Lines that stand where their blocks put them are listed by their texts. -/
theorem listing_eq {ls : List Line} {items : List Item} {closings blanks width : Nat} {t : String}
    (ht : Text.lines t = ls.map (Line.indented width)) (hn : Nested 0 ls 0)
    (h : Lists ls items closings blanks) : listing width t = items.map (some ·.text) := by
  -- The depth that is counted from the text is that of the line, so no more than its indentation
  -- is taken off.
  have hd := (hn.counts width).depth
  rw [← h.filterMap_text width]
  simp only [listing, ht, List.zipIdx_map, List.filterMap_map]
  conv_rhs => rw [← List.zipIdx_map_fst 0 ls, List.filterMap_map]
  refine List.filterMap_congr fun ⟨l, i⟩ hl => ?_
  have hdepth : depthAt (ls.map (Line.indented width)) i = l.depth := by
    simpa using hd i l (List.mem_zipIdx_iff_getElem?.mp hl)
  simp [Prod.map, hdepth, unindent?_indented]

end Source

/-! ## What the lines of definitions are -/

theorem Enum.lists_lines (e : Enum) (d : Nat) : Lists (e.lines d) e.items 1 0 :=
  .block (.enum e.name) rfl (.statements (f := .value) (d + 1) e.values)

mutual

theorem Message.lists_lines : ∀ (m : Message) (d : Nat),
    Lists (m.lines d) m.items m.definitions 0
  | ⟨name, fields, enums, messages⟩, d => by
    have hf : Lists (fields.map fun f => ⟨d + 1, f.text⟩) (fields.map .field) 0 0 :=
      .statements (f := .field) (d + 1) fields
    have he := Lists.flatMap enums fun e _ => e.lists_lines (d + 1)
    have hm := Message.lists_listLines messages (d + 1)
    have hbody : Lists (Message.lines d ⟨name, fields, enums, messages⟩) _ _ 0 :=
      .block (.message name) rfl ((hf.append he).append hm)
    simpa [Message.items, definitions] using hbody

theorem Message.lists_listLines : ∀ (ms : List Message) (d : Nat),
    Lists (Message.listLines d ms) (Message.listItems ms) (Message.listDefinitions ms) 0
  | [], _ => .nil
  | m :: ms, d => (Message.lists_lines m d).append (Message.lists_listLines ms d)

end

theorem Service.lists_lines (s : Service) : Lists s.lines s.items 1 0 :=
  .block (.service s.name) rfl (.statements (f := .method) 1 s.methods)

theorem Message.listItems_eq_flatMap : ∀ ms : List Message,
    Message.listItems ms = ms.flatMap Message.items
  | [] => rfl
  | m :: ms => by rw [Message.listItems, listItems_eq_flatMap ms, List.flatMap_cons]

theorem Message.listDefinitions_eq_sum : ∀ ms : List Message,
    Message.listDefinitions ms = (ms.map Message.definitions).sum
  | [] => rfl
  | m :: ms => by
    rw [Message.listDefinitions, listDefinitions_eq_sum ms, List.map_cons, List.sum_cons]

/-- What a definition at the top is made of, with the blank line behind it. -/
theorem Source.Lists.separated {α : Type} {f : α → List Line} {g : α → List Item} {n : α → Nat}
    (xs : List α) (h : ∀ x, Lists (f x) (g x) (n x) 0) :
    Lists (xs.flatMap fun x => f x ++ [.blank]) (xs.flatMap g) (xs.map n).sum xs.length := by
  have := flatMap xs fun x _ => (h x).append (.blank .nil)
  simpa using this

/-- The lines of a schema are its items, a line that closes each definition and a blank one behind
each definition at the top. -/
theorem Schema.lists_lines (s : Schema) : Lists s.lines s.items s.definitions s.toplevel := by
  have hm := Lists.separated s.messages fun m => m.lists_lines 0
  have he := Lists.separated s.enums fun e => e.lists_lines 0
  have hd := Lists.separated s.services Service.lists_lines
  have := (hm.append he).append hd
  simpa [lines, items, definitions, toplevel, Message.listItems_eq_flatMap,
    Message.listDefinitions_eq_sum] using this

/-! ## The blocks of messages -/

mutual

/-- All messages in a message at `depth`, itself included, each with the depth of its block. -/
def Message.placed (depth : Nat) : Message → List (Nat × Message)
  | ⟨name, fields, enums, messages⟩ =>
    (depth, ⟨name, fields, enums, messages⟩) :: Message.listPlaced (depth + 1) messages

/-- All messages in messages at `depth`. -/
def Message.listPlaced (depth : Nat) : List Message → List (Nat × Message)
  | [] => []
  | m :: ms => m.placed depth ++ Message.listPlaced depth ms

end

theorem Source.infix_block {depth : Nat} {keyword name : String} {body : List Line} :
    body <:+: block depth keyword name body :=
  List.infix_append [_] body [_]

mutual

/-- A message's block stands whole in the block of each message around it. -/
theorem Message.lines_infix {e : Nat} {n : Message} : ∀ (m : Message) (d : Nat),
    (e, n) ∈ m.placed d → n.lines e <:+: m.lines d
  | ⟨name, fields, enums, messages⟩, d, h => by
    simp only [placed, List.mem_cons, Prod.mk.injEq] at h
    rcases h with ⟨rfl, rfl⟩ | h
    · exact List.infix_rfl
    · have hin := Message.listLines_infix messages (d + 1) h
      exact (hin.trans (List.suffix_append _ _).isInfix).trans infix_block

theorem Message.listLines_infix {e : Nat} {n : Message} : ∀ (ms : List Message) (d : Nat),
    (e, n) ∈ Message.listPlaced d ms → n.lines e <:+: Message.listLines d ms
  | [], _, h => by simp [Message.listPlaced] at h
  | m :: ms, d, h => by
    simp only [Message.listPlaced, List.mem_append] at h
    rcases h with h | h
    · exact (Message.lines_infix m d h).trans (List.prefix_append _ _).isInfix
    · exact (Message.listLines_infix ms d h).trans (List.suffix_append _ _).isInfix

end

theorem Message.listPlaced_eq_flatMap (d : Nat) : ∀ ms : List Message,
    Message.listPlaced d ms = ms.flatMap (Message.placed d)
  | [] => rfl
  | m :: ms => by rw [Message.listPlaced, listPlaced_eq_flatMap d ms, List.flatMap_cons]

/-- All messages of a schema, each with the depth of its block. -/
def Schema.placedMessages (s : Schema) : List (Nat × Message) := Message.listPlaced 0 s.messages

/-- Each message's block stands whole among the lines of the schema. -/
theorem Schema.lines_infix {s : Schema} {e : Nat} {n : Message}
    (h : (e, n) ∈ s.placedMessages) : n.lines e <:+: s.lines := by
  rw [placedMessages, Message.listPlaced_eq_flatMap, List.mem_flatMap] at h
  obtain ⟨m, hm, hn⟩ := h
  obtain ⟨before, after, hsplit⟩ := List.append_of_mem hm
  have hblock : m.lines 0 ++ [.blank] <:+: s.lines := by
    simp only [Schema.lines, hsplit, List.flatMap_append, List.flatMap_cons, List.append_assoc]
    exact ⟨_, _, by simp only [List.append_assoc]; rfl⟩
  exact ((Message.lines_infix m 0 hn).trans (List.prefix_append _ _).isInfix).trans hblock

/-- A message holds nothing exactly if its block is nothing but the line that opens it and the line
that closes it. -/
theorem Message.isEmpty_iff_length_lines (m : Message) (d : Nat) :
    m.isEmpty ↔ (m.lines d).length = 2 := by
  obtain ⟨name, fields, enums, messages⟩ := m
  have hm : Message.listDefinitions messages = 0 ↔ messages = [] := by
    cases messages with
    | nil => simp [Message.listDefinitions]
    | cons m ms =>
      obtain ⟨_, _, _, _⟩ := m
      simp [Message.listDefinitions, definitions]
  rw [length_lines]
  simp only [isEmpty, Bool.and_eq_true, List.isEmpty_iff, definitions, statements]
  constructor
  · rintro ⟨⟨rfl, rfl⟩, rfl⟩
    rfl
  · intro h
    exact ⟨⟨List.length_eq_zero_iff.mp (by omega), List.length_eq_zero_iff.mp (by omega)⟩,
      hm.mp (by omega)⟩

/-! ## The law -/

/-- **Nothing is lost, said twice or moved.** The text of a schema lists what the schema declares,
each item once and in the order of the tree, at every depth. One line closes each definition, and
there are no other lines but a blank one behind each definition at the top. Every message has its
block in the text, and holds nothing exactly if the block has two lines. -/
theorem Schema.listing_eq_items {s : Schema} {width : Nat} {t : String}
    (h : ∀ n ∈ s.names, Unbroken n) (ht : s.render width = .ok t) :
    listing width t = s.items.map (some ·.text) ∧
    (Text.lines t).countP closes = s.definitions ∧
    (Text.lines t).length = 2 * s.definitions + s.statements + s.toplevel ∧
    ∀ d m, (d, m) ∈ s.placedMessages → ∃ before block after : List String,
      Text.lines t = before ++ block ++ after ∧ block = (m.lines d).map (Line.indented width) ∧
      (m.isEmpty ↔ block.length = 2) := by
  have hlines := lines_of_render h ht
  have hlists := s.lists_lines
  refine ⟨listing_eq hlines s.nested_lines hlists, ?_, ?_, fun d m hm => ?_⟩
  · rw [hlines]
    exact hlists.countP_closes width
  · rw [hlines, List.length_map, length_lines]
  · obtain ⟨before, after, hsplit⟩ := lines_infix hm
    refine ⟨before.map (Line.indented width), _, after.map (Line.indented width), ?_, rfl, ?_⟩
    · rw [hlines, ← hsplit, List.map_append, List.map_append]
    · rw [List.length_map]
      exact m.isEmpty_iff_length_lines d

/-- Equal siblings, an empty message, and names that are lines of other kinds. -/
def Schema.lookalikes : Schema where
  messages := [{
    name := "\x7d"
    fields := [⟨.repeated, "enum", "E \x7b", 1⟩, ⟨.repeated, "enum", "E \x7b", 1⟩]
    enums := [{ name := "E", values := [⟨"\x7d", -1⟩] }]
    messages := [{ name := "M" }, { name := "M" }] }]
  services := [{ name := "", methods := [⟨"rpc", "message", "\x7d", true, false⟩] }]

/-- Each of them is listed once for each time that it is declared. -/
theorem Schema.listing_eq_items_lookalikes :
    (∀ n ∈ lookalikes.names, Unbroken n) ∧ lookalikes.definitions = 5 ∧
    lookalikes.statements = 4 ∧ ∃ t, lookalikes.render 3 = .ok t ∧
    listing 3 t = [some "message \x7d \x7b", some "repeated enum E \x7b = 1;",
      some "repeated enum E \x7b = 1;", some "enum E \x7b", some "\x7d = -1;",
      some "message M \x7b", some "message M \x7b", some "service  \x7b",
      some "rpc rpc (stream message) returns (\x7d);"] ∧
    (Text.lines t).countP closes = 5 ∧ (Text.lines t).length = 16 ∧
    ∃ before block after : List String, Text.lines t = before ++ block ++ after ∧
      block.length = 2 := by
  have hn : ∀ n ∈ lookalikes.names, Unbroken n := by decide
  have hr : lookalikes.deepest * 3 ≤ maxIndent := by decide
  obtain ⟨hlisting, hcloses, hlength, hblock⟩ :=
    listing_eq_items hn (render_eq_ok_iff.mpr ⟨hr, rfl⟩)
  obtain ⟨before, block, after, hsplit, -, hempty⟩ := hblock 1 { name := "M" } (by decide)
  exact ⟨hn, rfl, rfl, _, render_eq_ok_iff.mpr ⟨hr, rfl⟩, hlisting, hcloses, hlength,
    before, block, after, hsplit, hempty.mp rfl⟩

end ProtoScribe

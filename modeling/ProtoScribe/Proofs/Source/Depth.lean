import ProtoScribe.Proofs.Source.Lines

/-!
# Indentation follows the blocks

The depth of a line can be read off the text alone, by counting the lines before it that open a
block and the lines up to it that close one. In the text of a schema that count is the number of
levels by which the line is indented.

The invariant is `Nested k ls k'`: with `k` blocks open in front of them, the lines of `ls` stand
where the open blocks put them, and leave `k'` blocks open. It is kept by appending, so each
definition's lines have it by one case per kind of definition.

A name may end in a brace or be one. A line with a name in it still ends as its kind of line ends,
which is why only the end of a line tells what it does.
-/

namespace ProtoScribe.Source

open Text

/-! ## Depth by the text alone -/

/-- Whether a line opens a block. -/
def opens (line : String) : Bool := " \x7b".toList.isSuffixOf line.toList

/-- Whether a line closes a block: it holds a single brace behind spaces. -/
def closes (line : String) : Bool := line.toList.dropWhile (· = ' ') = ['\x7d']

/-- How many blocks line `i` stands in: those opened before it, less those closed up to it. -/
def depthAt (lines : List String) (i : Nat) : Int :=
  (lines.take i).countP opens - (lines.take (i + 1)).countP closes

/-! ## What the end of a line tells -/

theorem getLast?_of_opens {line : String} (h : opens line) :
    line.toList.getLast? = some '\x7b' := by
  obtain ⟨before, hb⟩ := List.isSuffixOf_iff_suffix.mp h
  rw [← hb]
  simp

theorem getLast?_of_closes {line : String} (h : closes line) :
    line.toList.getLast? = some '\x7d' := by
  have hd : line.toList.dropWhile (· = ' ') = ['\x7d'] := by simpa [closes] using h
  rw [← List.takeWhile_append_dropWhile (p := (· = ' ')) (l := line.toList), hd]
  simp

/-- A line ends in its text, or in a space if it has none. -/
theorem getLast?_indented (width : Nat) (l : Line) {c : Char}
    (h : (l.indented width).toList.getLast? = some c) :
    l.text.toList.getLast? = some c ∨ c = ' ' := by
  simp only [Line.indented, spaces, String.toList_append, String.toList_ofList,
    List.getLast?_append] at h
  cases ht : l.text.toList.getLast? with
  | some d =>
    rw [ht] at h
    exact Or.inl h
  | none =>
    rw [ht, Option.none_or] at h
    exact Or.inr (List.eq_of_mem_replicate (List.mem_of_getLast? h))

/-- A text that ends in no brace does nothing to blocks, however it is indented. -/
structure Line.Inert (l : Line) : Prop where
  not_open : l.text.toList.getLast? ≠ some '\x7b'
  not_close : l.text.toList.getLast? ≠ some '\x7d'

theorem Line.Inert.opens_eq {l : Line} (h : l.Inert) (width : Nat) :
    opens (l.indented width) = false := by
  rw [Bool.eq_false_iff]
  intro ho
  rcases getLast?_indented width l (getLast?_of_opens ho) with he | he
  · exact h.not_open he
  · exact absurd he (by decide)

theorem Line.Inert.closes_eq {l : Line} (h : l.Inert) (width : Nat) :
    closes (l.indented width) = false := by
  rw [Bool.eq_false_iff]
  intro hc
  rcases getLast?_indented width l (getLast?_of_closes hc) with he | he
  · exact h.not_close he
  · exact absurd he (by decide)

/-- The first line of a block opens it, whatever the block's name. -/
theorem opens_open (width depth : Nat) (before : String) :
    opens (Line.indented width ⟨depth, before ++ " \x7b"⟩) = true := by
  rw [opens, List.isSuffixOf_iff_suffix]
  exact ⟨(spaces (depth * width)).toList ++ before.toList, by simp [Line.indented]⟩

theorem closes_open (width depth : Nat) (before : String) :
    closes (Line.indented width ⟨depth, before ++ " \x7b"⟩) = false := by
  rw [Bool.eq_false_iff]
  intro hc
  have h := getLast?_of_closes hc
  simp [Line.indented] at h

/-- The last line of a block closes it. -/
theorem closes_close (width depth : Nat) : closes (Line.indented width ⟨depth, "\x7d"⟩) = true := by
  simp only [closes, Line.indented, spaces, String.toList_append, String.toList_ofList,
    decide_eq_true_eq]
  rw [List.dropWhile_append_of_pos fun c hc => by simp [List.eq_of_mem_replicate hc]]
  decide

theorem opens_close (width depth : Nat) : opens (Line.indented width ⟨depth, "\x7d"⟩) = false := by
  rw [Bool.eq_false_iff]
  intro ho
  have h := getLast?_of_opens ho
  simp [Line.indented] at h

/-! ## Lines that stand where the open blocks put them -/

/-- With `k` blocks open in front of them, the lines stand where the open blocks put them and leave
`k'` blocks open. -/
inductive Nested : (k : Nat) → List Line → (k' : Nat) → Prop where
  | nil {k : Nat} : Nested k [] k
  | inert {k k' : Nat} {text : String} {ls : List Line} (h : Line.Inert ⟨k, text⟩)
      (rest : Nested k ls k') : Nested k (⟨k, text⟩ :: ls) k'
  | opening {k k' : Nat} (before : String) {ls : List Line} (rest : Nested (k + 1) ls k') :
      Nested k (⟨k, before ++ " \x7b"⟩ :: ls) k'
  | closing {k k' : Nat} {ls : List Line} (rest : Nested k ls k') :
      Nested (k + 1) (⟨k, "\x7d"⟩ :: ls) k'

namespace Nested

theorem append {a b c : Nat} {xs ys : List Line} (h₁ : Nested a xs b) (h₂ : Nested b ys c) :
    Nested a (xs ++ ys) c := by
  induction h₁ with
  | nil => exact h₂
  | inert h _ ih => exact .inert h (ih h₂)
  | opening before _ ih => exact .opening before (ih h₂)
  | closing _ ih => exact .closing (ih h₂)

/-- Inert lines inside the same blocks. -/
theorem of_inert {k : Nat} : ∀ ls : List Line, (∀ l ∈ ls, l.depth = k ∧ l.Inert) → Nested k ls k
  | [], _ => .nil
  | ⟨depth, text⟩ :: ls, h => by
    obtain ⟨rfl, hi⟩ := h _ List.mem_cons_self
    exact .inert hi (of_inert ls fun l hl => h l (List.mem_cons_of_mem _ hl))

/-- What keeps the open blocks keeps them when it is repeated. -/
theorem flatMap {α : Type} {k : Nat} {f : α → List Line} :
    ∀ xs : List α, (∀ x ∈ xs, Nested k (f x) k) → Nested k (xs.flatMap f) k
  | [], _ => .nil
  | x :: xs, h => by
    rw [List.flatMap_cons]
    exact (h x List.mem_cons_self).append (flatMap xs fun y hy => h y (List.mem_cons_of_mem _ hy))

theorem block {depth : Nat} (keyword name : String) {body : List Line}
    (h : Nested (depth + 1) body (depth + 1)) :
    Nested depth (block depth keyword name body) depth :=
  .opening (keyword ++ " " ++ name) (h.append (.closing .nil))

end Nested

/-! ## Counting over nested lines -/

/-- Counting over `lines` from `k` on gives the depths of `ls`, and `k'` behind the last line. -/
structure Counts (k : Nat) (ls : List Line) (lines : List String) (k' : Nat) : Prop where
  depth : ∀ (i : Nat) (l : Line), ls[i]? = some l → k + depthAt lines i = l.depth
  last : k + depthAt lines ls.length = k'

theorem depthAt_zero (line : String) (lines : List String) :
    depthAt (line :: lines) 0 = -(if closes line then 1 else 0 : Int) := by
  simp [depthAt, List.countP_cons]

theorem depthAt_succ (line : String) (lines : List String) (i : Nat) :
    depthAt (line :: lines) (i + 1) = (if opens line then 1 else 0 : Int)
      - (if closes line then 1 else 0 : Int) + depthAt lines i := by
  simp only [depthAt, List.take_succ_cons, List.countP_cons]
  split <;> split <;> push_cast <;> omega

/-- A line in front adds what it does to the blocks behind it. -/
theorem Counts.cons {k k₁ k' : Nat} {l : Line} {ls : List Line} {line : String}
    {lines : List String} (here : (k : Int) - (if closes line then 1 else 0 : Int) = l.depth)
    (next : (k : Int) + (if opens line then 1 else 0 : Int)
      - (if closes line then 1 else 0 : Int) = k₁)
    (rest : Counts k₁ ls lines k') : Counts k (l :: ls) (line :: lines) k' where
  depth i m hm := by
    cases i with
    | zero =>
      rw [List.getElem?_cons_zero, Option.some.injEq] at hm
      subst hm
      rw [depthAt_zero]
      omega
    | succ i =>
      have := rest.depth i m (by simpa using hm)
      rw [depthAt_succ]
      omega
  last := by
    have := rest.last
    rw [List.length_cons, depthAt_succ]
    omega

/-- Counting over the text of nested lines gives their depths. -/
theorem Nested.counts (width : Nat) {k k' : Nat} {ls : List Line} (h : Nested k ls k') :
    Counts k ls (ls.map (Line.indented width)) k' := by
  induction h with
  | nil => exact ⟨by simp, by simp [depthAt]⟩
  | inert hi _ ih =>
    exact ih.cons (by simp [hi.closes_eq]) (by simp [hi.opens_eq, hi.closes_eq])
  | opening before _ ih =>
    exact ih.cons (by simp [closes_open]) (by simp [opens_open, closes_open])
  | closing _ ih =>
    exact ih.cons (by simp [closes_close]) (by simp [opens_close, closes_close])

end ProtoScribe.Source

namespace ProtoScribe

open Source Text

/-! ## The lines of a schema are nested -/

/-- A statement is inert: it ends in a semicolon, whatever comes before. -/
theorem Source.Line.Inert.of_semicolon {depth : Nat} (before : String) {ending : String}
    (h : ending.toList.getLast? = some ';') : Line.Inert ⟨depth, before ++ ending⟩ := by
  constructor <;> simp [h]

theorem Source.Line.Inert.blank : Line.blank.Inert := by
  constructor <;> decide

theorem Enum.nested_lines (e : Enum) (d : Nat) : Nested d (e.lines d) d := by
  refine .block "enum" e.name (.of_inert _ fun l hl => ?_)
  obtain ⟨v, -, rfl⟩ := List.mem_map.mp hl
  exact ⟨rfl, .of_semicolon _ (by decide)⟩

mutual

theorem Message.nested_lines : ∀ (m : Message) (d : Nat), Nested d (m.lines d) d
  | ⟨name, fields, enums, messages⟩, d => by
    have hf : Nested (d + 1) (fields.map fun f => ⟨d + 1, f.text⟩) (d + 1) := by
      refine .of_inert _ fun l hl => ?_
      obtain ⟨f, -, rfl⟩ := List.mem_map.mp hl
      exact ⟨rfl, .of_semicolon _ (by decide)⟩
    have he : Nested (d + 1) (enums.flatMap (Enum.lines (d + 1))) (d + 1) :=
      .flatMap enums fun e _ => e.nested_lines (d + 1)
    exact .block "message" name ((hf.append he).append (Message.nested_listLines messages (d + 1)))

theorem Message.nested_listLines : ∀ (ms : List Message) (d : Nat),
    Nested d (Message.listLines d ms) d
  | [], _ => .nil
  | m :: ms, d => (Message.nested_lines m d).append (Message.nested_listLines ms d)

end

theorem Service.nested_lines (s : Service) : Nested 0 s.lines 0 := by
  refine .block "service" s.name (.of_inert _ fun l hl => ?_)
  obtain ⟨m, -, rfl⟩ := List.mem_map.mp hl
  exact ⟨rfl, .of_semicolon _ (by decide)⟩

/-- No block is open before a schema's lines or behind them. -/
theorem Schema.nested_lines (s : Schema) : Nested 0 s.lines 0 := by
  have blank : Nested 0 [Line.blank] 0 := .inert .blank .nil
  have hm := Nested.flatMap s.messages fun m _ => (m.nested_lines 0).append blank
  have he := Nested.flatMap s.enums fun e _ => (e.nested_lines 0).append blank
  have hs := Nested.flatMap s.services fun d _ => d.nested_lines.append blank
  exact (hm.append he).append hs

/-! ## The law -/

/-- **Indentation and blocks agree on every line.** The text of a schema has the same contents and
depths at every width: each line is as many spaces as its depth asks for and its content, and its
depth is what counting the lines that open and close blocks gives. The count is never negative and
is zero behind the last line. -/
theorem Schema.indentation_follows_blocks (s : Schema) (h : ∀ n ∈ s.names, Unbroken n) :
    ∃ shape : List Line, ∀ (width : Nat) (t : String), s.render width = .ok t →
      Text.lines t = shape.map (fun l => spaces (l.depth * width) ++ l.text) ∧
      (∀ (i : Nat) (l : Line), shape[i]? = some l → depthAt (Text.lines t) i = l.depth) ∧
      (∀ i < (Text.lines t).length, 0 ≤ depthAt (Text.lines t) i) ∧
      depthAt (Text.lines t) (Text.lines t).length = 0 := by
  refine ⟨s.lines, fun width t ht => ?_⟩
  have hc := s.nested_lines.counts width
  rw [lines_of_render h ht]
  have hd : ∀ (i : Nat) (l : Line), s.lines[i]? = some l →
      depthAt (s.lines.map (Line.indented width)) i = l.depth := fun i l hl => by
    simpa using hc.depth i l hl
  refine ⟨rfl, hd, fun i hi => ?_, ?_⟩
  · rw [List.length_map] at hi
    rw [hd i s.lines[i] (List.getElem?_eq_getElem hi)]
    exact Int.natCast_nonneg _
  · rw [List.length_map]
    simpa using hc.last

/-- A schema whose names are braces. -/
def Schema.braces : Schema where
  messages := [{
    name := "\x7d"
    fields := [{ typeName := "\x7b", name := " \x7b", tag := 1 }]
    messages := [{ name := "" }] }]

/-- Names that are braces count for nothing. -/
theorem Schema.indentation_follows_blocks_braces :
    (∀ n ∈ braces.names, Unbroken n) ∧
    braces.render 1 =
      .ok "message \x7d \x7b\n \x7b  \x7b = 1;\n message  \x7b\n \x7d\n\x7d\n\n" ∧
    ∃ shape : List Line,
      let lines := Text.lines "message \x7d \x7b\n \x7b  \x7b = 1;\n message  \x7b\n \x7d\n\x7d\n\n"
      lines = shape.map (fun l => spaces (l.depth * 1) ++ l.text) ∧
      (∀ (i : Nat) (l : Line), shape[i]? = some l → depthAt lines i = l.depth) ∧
      (∀ i < lines.length, 0 ≤ depthAt lines i) ∧ depthAt lines lines.length = 0 := by
  obtain ⟨shape, h⟩ := braces.indentation_follows_blocks (by decide)
  exact ⟨by decide, rfl, shape, h 1 _ rfl⟩

end ProtoScribe

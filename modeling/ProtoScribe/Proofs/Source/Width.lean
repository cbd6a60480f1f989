import ProtoScribe.Generator
import ProtoScribe.Proofs.Source.Lines
import ProtoScribe.Storage.World

/-!
# Which widths a schema can be rendered at

A schema renders at a width if its deepest line can be indented. `Schema.deepest` finds that depth
on the tree, without writing a line: what stands in a block counts one more than the block, and a
block with nothing in it counts as itself.

`deepest_le_iff` says of each kind of definition that the number found is the least bound of the
depths of its lines. The rest follows from `render_eq_ok_iff`, which refuses the first line that is
indented too far. The product of depth and width is taken in machine words; that it is never cut
there is `columns_of_le`.
-/

namespace ProtoScribe

open Source

/-! ## The deepest line -/

/-- The greatest of some depths, and 0 if there are none. -/
def Source.greatest (depths : List Nat) : Nat := depths.foldr max 0

/-- The depth of the deepest line of a block whose own lines are at `depth`, with the given
statements in it. -/
def Source.statementDepth {α : Type} (depth : Nat) (statements : List α) : Nat :=
  if statements.isEmpty then depth else depth + 1

/-- The deepest line of an enum at `depth`: one of its values, if it has any. -/
def Enum.deepest (depth : Nat) (e : Enum) : Nat := statementDepth depth e.values

mutual

/-- The deepest line of a message at `depth`: a field, or a line of what is nested in it. -/
def Message.deepest (depth : Nat) : Message → Nat
  | ⟨_, fields, enums, messages⟩ =>
    max (statementDepth depth fields)
      (max (greatest (enums.map (Enum.deepest (depth + 1))))
        (Message.listDeepest (depth + 1) messages))

/-- The deepest line of messages at `depth`. -/
def Message.listDeepest (depth : Nat) : List Message → Nat
  | [] => 0
  | m :: ms => max (m.deepest depth) (Message.listDeepest depth ms)

end

/-- The deepest line of a service: one of its methods, if it has any. -/
def Service.deepest (d : Service) : Nat := statementDepth 0 d.methods

/-- The deepest line of a schema. -/
def Schema.deepest (s : Schema) : Nat :=
  max (Message.listDeepest 0 s.messages)
    (max (greatest (s.enums.map (Enum.deepest 0))) (greatest (s.services.map Service.deepest)))

/-! ## It bounds the depths of all lines, and no smaller number does -/

/-- Whether `k` bounds the depths of lines. -/
def Source.Bounded (k : Nat) (ls : List Line) : Prop := ∀ l ∈ ls, l.depth ≤ k

namespace Source

@[simp] theorem bounded_nil {k : Nat} : Bounded k [] := by simp [Bounded]

@[simp] theorem bounded_append {k : Nat} {xs ys : List Line} :
    Bounded k (xs ++ ys) ↔ Bounded k xs ∧ Bounded k ys := List.forall_mem_append

theorem bounded_flatMap {α : Type} {k : Nat} {f : α → List Line} {xs : List α} :
    Bounded k (xs.flatMap f) ↔ ∀ x ∈ xs, Bounded k (f x) := by
  simp only [Bounded, List.mem_flatMap]
  constructor
  · intro h x hx l hl
    exact h l ⟨x, hx, hl⟩
  · rintro h l ⟨x, hx, hl⟩
    exact h x hx l hl

theorem bounded_block {k depth : Nat} {keyword name : String} {body : List Line} :
    Bounded k (block depth keyword name body) ↔ depth ≤ k ∧ Bounded k body := by
  simp only [Bounded, block, List.cons_append, List.forall_mem_cons, List.forall_mem_append]
  simp only [List.not_mem_nil, false_imp_iff, implies_true, and_true]
  tauto

theorem greatest_le_iff {k : Nat} {depths : List Nat} :
    greatest depths ≤ k ↔ ∀ n ∈ depths, n ≤ k := by
  unfold greatest
  induction depths with
  | nil => simp
  | cons n ns ih => rw [List.foldr_cons, Nat.max_le, ih, List.forall_mem_cons]

/-- A block bounds its own lines, and one more bounds its statements if it has any. -/
theorem statementDepth_le_iff {α : Type} {k depth : Nat} {xs : List α} (text : α → String) :
    statementDepth depth xs ≤ k ↔
      depth ≤ k ∧ Bounded k (xs.map fun x => ⟨depth + 1, text x⟩) := by
  cases xs with
  | nil => simp [statementDepth]
  | cons x xs =>
    simp only [statementDepth, Bounded, List.isEmpty_cons, Bool.false_eq_true, if_false,
      List.forall_mem_map, List.forall_mem_cons]
    exact ⟨fun h => ⟨by omega, h, fun _ _ => h⟩, fun h => h.2.1⟩

end Source

theorem Enum.deepest_le_iff {k d : Nat} {e : Enum} : e.deepest d ≤ k ↔ Bounded k (e.lines d) := by
  rw [deepest, lines, bounded_block, statementDepth_le_iff EnumValue.text]

theorem Enum.listDeepest_le_iff {k d : Nat} {es : List Enum} :
    greatest (es.map (Enum.deepest d)) ≤ k ↔ Bounded k (es.flatMap (Enum.lines d)) := by
  rw [greatest_le_iff, bounded_flatMap, List.forall_mem_map]
  simp only [Enum.deepest_le_iff]

mutual

theorem Message.deepest_le_iff {k : Nat} : ∀ (m : Message) (d : Nat),
    m.deepest d ≤ k ↔ Bounded k (m.lines d)
  | ⟨name, fields, enums, messages⟩, d => by
    rw [deepest, lines, bounded_block, bounded_append, bounded_append, Nat.max_le, Nat.max_le,
      statementDepth_le_iff Field.text, Enum.listDeepest_le_iff,
      Message.listDeepest_le_iff messages (d + 1)]
    tauto

theorem Message.listDeepest_le_iff {k : Nat} : ∀ (ms : List Message) (d : Nat),
    Message.listDeepest d ms ≤ k ↔ Bounded k (Message.listLines d ms)
  | [], _ => by simp [Message.listDeepest, Message.listLines]
  | m :: ms, d => by
    rw [Message.listDeepest, Message.listLines, bounded_append, Nat.max_le,
      Message.deepest_le_iff m d, Message.listDeepest_le_iff ms d]

end

theorem Service.deepest_le_iff {k : Nat} {d : Service} : d.deepest ≤ k ↔ Bounded k d.lines := by
  rw [deepest, lines, bounded_block, statementDepth_le_iff Method.text]

/-- The blank lines between definitions are no deeper than anything else. -/
theorem Source.bounded_separated {α : Type} {k : Nat} {f : α → List Line} {xs : List α} :
    Bounded k (xs.flatMap fun x => f x ++ [.blank]) ↔ Bounded k (xs.flatMap f) := by
  have blank : Bounded k [Line.blank] := by simp [Bounded, Line.blank]
  simp only [bounded_flatMap, bounded_append, blank, and_true]

theorem Schema.deepest_le_iff {k : Nat} {s : Schema} : s.deepest ≤ k ↔ Bounded k s.lines := by
  have hd : greatest (s.services.map Service.deepest) ≤ k ↔
      Bounded k (s.services.flatMap Service.lines) := by
    rw [greatest_le_iff, bounded_flatMap, List.forall_mem_map]
    simp only [Service.deepest_le_iff]
  rw [deepest, lines, Nat.max_le, Nat.max_le, bounded_append, bounded_append, bounded_separated,
    bounded_separated, bounded_separated, Message.listDeepest_le_iff, Enum.listDeepest_le_iff, hd,
    Message.listLines_eq_flatMap, and_assoc]

/-! ## Rendering -/

/-- Every line of a schema can be indented exactly if the deepest can. -/
theorem Schema.deepest_mul_le_iff {s : Schema} {width limit : Nat} :
    s.deepest * width ≤ limit ↔ ∀ l ∈ s.lines, l.depth * width ≤ limit := by
  rcases Nat.eq_zero_or_pos width with rfl | hw
  · simp
  · simp only [← Nat.le_div_iff_mul_le hw]
    exact deepest_le_iff

theorem Schema.render_eq_ok_iff {s : Schema} {width : Nat} {t : String} :
    s.render width = .ok t ↔ s.deepest * width ≤ maxIndent ∧ Source.text width s.lines = t := by
  rw [render, Source.render_eq_ok_iff, deepest_mul_le_iff]

/-- A schema has no rendering exactly if its deepest line cannot be indented. -/
theorem Schema.render_eq_error_iff {s : Schema} {width : Nat} :
    (∃ e, s.render width = .error e) ↔ maxIndent < s.deepest * width := by
  rw [← Nat.not_le]
  cases h : s.render width with
  | ok t => simp [(render_eq_ok_iff.mp h).1]
  | error e =>
    refine iff_of_true ⟨e, rfl⟩ fun hle => ?_
    have := render_eq_ok_iff.mpr ⟨hle, rfl⟩
    rw [h] at this
    cases this

/-- A header in front changes nothing about whether there is a text. -/
theorem Generator.text_eq_error_iff {g : Generator} {s : Schema} :
    (∃ e, g.text s = .error e) ↔ ∃ e, s.render g.width.toNat = .error e := by
  unfold text
  cases s.render g.width.toNat <;> simp [Except.map]

/-- Reporting changes nothing about the text. -/
theorem World.render_fst (g : Generator) (s : Schema) (world : World) :
    (World.host.render g s world).1 = g.text s := by
  unfold Host.render
  cases g.text s with
  | error e => rfl
  | ok t => cases g.header <;> rfl

/-- **When rendering fails.** A schema has no text at a width exactly if its deepest line would be
indented by more than 65535 columns, with a header before it or without, whoever asks. A text that
is returned has every line behind all its columns, and is returned at every smaller width too. -/
theorem Schema.render_overflows_iff (s : Schema) (g : Generator) (world : World) :
    let width := g.width.toNat
    ((∃ e, s.render width = .error e) ↔ 65535 < s.deepest * width) ∧
    ((∃ e, g.text s = .error e) ↔ 65535 < s.deepest * width) ∧
    ((∃ e, (World.host.render g s world).1 = .error e) ↔ 65535 < s.deepest * width) ∧
    (∀ t, s.render width = .ok t →
      t = String.join (s.lines.map fun l => spaces (l.depth * width) ++ l.text ++ "\n")) ∧
    (∀ t smaller, s.render width = .ok t → smaller ≤ width → ∃ t', s.render smaller = .ok t') := by
  intro width
  have hr : (∃ e, s.render width = .error e) ↔ 65535 < s.deepest * width := render_eq_error_iff
  refine ⟨hr, Generator.text_eq_error_iff.trans hr, ?_, fun t ht => ?_, fun t smaller ht hle => ?_⟩
  · rw [World.render_fst]
    exact Generator.text_eq_error_iff.trans hr
  · exact (render_eq_ok_iff.mp ht).2.symm
  · have hd := Nat.mul_le_mul_left s.deepest hle
    exact ⟨_, render_eq_ok_iff.mpr ⟨hd.trans (render_eq_ok_iff.mp ht).1, rfl⟩⟩

/-- A message in a message in a message. -/
def Schema.tower : Schema where
  messages := [{ name := "A", messages := [{ name := "B", messages := [{ name := "C" }] }] }]

/-- Two times 2 ^ 63 columns are no columns in a machine word, and still there is no text. -/
theorem Schema.render_overflows_tower :
    (2 : UInt64) * 9223372036854775808 = 0 ∧
    (∃ e, tower.render 9223372036854775808 = .error e) ∧
    tower.render 1 =
      .ok "message A \x7b\n message B \x7b\n  message C \x7b\n  \x7d\n \x7d\n\x7d\n\n" ∧
    ∃ t, tower.render 0 = .ok t := by
  have wide := tower.render_overflows_iff { width := 9223372036854775808 } {}
  have narrow := tower.render_overflows_iff { width := 1 } {}
  exact ⟨by decide, wide.1.mpr (by decide), rfl, narrow.2.2.2.2 _ 0 rfl (by decide)⟩

end ProtoScribe

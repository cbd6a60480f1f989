import ProtoScribe.Proofs.Source.Lines

/-!
# Schemas that are built call by call

What is added to a schema goes behind what it has of the same kind, and so does what is added to a
message. So a sequence of calls builds what the calls of each kind say in their order, however the
kinds are mixed (`Schema.foldl_add`, `Message.foldl_add`).

The text of a schema is the texts of its definitions, each as if it stood alone, messages before
enums before services (`Schema.render_eq_concat`). One more definition adds its text in one place,
and nothing else changes (`Schema.exists_insert_add`). Both hold of texts that there are and of
those that there are not, because lines are indented one by one (`Source.render_append`).
-/

namespace ProtoScribe

open Source

/-! ## Calls -/

/-- What can be added to a schema. -/
inductive Definition where
  | message (m : Message)
  | enum (e : Enum)
  | service (d : Service)

namespace Definition

/-- The message, if it is one. -/
def message? : Definition → Option Message
  | message m => some m
  | _ => none

/-- The enum, if it is one. -/
def enum? : Definition → Option Enum
  | enum e => some e
  | _ => none

/-- The service, if it is one. -/
def service? : Definition → Option Service
  | service d => some d
  | _ => none

end Definition

/-- Two sequences of calls with the same calls of each kind. -/
structure Definition.SameByKind (calls calls' : List Definition) : Prop where
  messages : calls.filterMap message? = calls'.filterMap message?
  enums : calls.filterMap enum? = calls'.filterMap enum?
  services : calls.filterMap service? = calls'.filterMap service?

/-- The schema with one more definition. -/
def Schema.add (s : Schema) : Definition → Schema
  | .message m => s.addMessage m
  | .enum e => s.addEnum e
  | .service d => s.addService d

/-- The schema that some calls build, one after the other. -/
def Schema.build (calls : List Definition) : Schema := calls.foldl add {}

/-- What can be added to a message. -/
inductive Message.Member where
  | field (f : Field)
  | enum (e : Enum)
  | message (m : Message)

namespace Message.Member

/-- The field, if it is one. -/
def field? : Member → Option Field
  | field f => some f
  | _ => none

/-- The enum, if it is one. -/
def enum? : Member → Option Enum
  | enum e => some e
  | _ => none

/-- The message, if it is one. -/
def message? : Member → Option Message
  | message m => some m
  | _ => none

end Message.Member

/-- Two sequences of calls with the same calls of each kind. -/
structure Message.Member.SameByKind (calls calls' : List Member) : Prop where
  fields : calls.filterMap field? = calls'.filterMap field?
  enums : calls.filterMap enum? = calls'.filterMap enum?
  messages : calls.filterMap message? = calls'.filterMap message?

/-- The message with one more member. -/
def Message.add (m : Message) : Member → Message
  | .field f => m.addField f
  | .enum e => m.addEnum e
  | .message n => m.addMessage n

/-- The message that some calls build, one after the other. -/
def Message.build (name : String) (calls : List Message.Member) : Message :=
  calls.foldl Message.add { name }

/-- Calls append to what there is of their kind. -/
theorem Schema.foldl_add (calls : List Definition) (s : Schema) : calls.foldl add s =
    { messages := s.messages ++ calls.filterMap Definition.message?
      enums := s.enums ++ calls.filterMap Definition.enum?
      services := s.services ++ calls.filterMap Definition.service? } := by
  induction calls generalizing s with
  | nil => simp
  | cons call calls ih =>
    rw [List.foldl_cons, ih]
    cases call <;> simp [add, addMessage, addEnum, addService, List.filterMap_cons,
      Definition.message?, Definition.enum?, Definition.service?]

theorem Schema.build_eq (calls : List Definition) : build calls =
    { messages := calls.filterMap Definition.message?
      enums := calls.filterMap Definition.enum?
      services := calls.filterMap Definition.service? } :=
  foldl_add calls {}

theorem Message.foldl_add (calls : List Message.Member) (m : Message) : calls.foldl add m =
    { name := m.name
      fields := m.fields ++ calls.filterMap Member.field?
      enums := m.enums ++ calls.filterMap Member.enum?
      messages := m.messages ++ calls.filterMap Member.message? } := by
  induction calls generalizing m with
  | nil => cases m; simp
  | cons call calls ih =>
    rw [List.foldl_cons, ih]
    cases call <;> simp [add, addField, addEnum, addMessage, List.filterMap_cons, Member.field?,
      Member.enum?, Member.message?]

theorem Message.build_eq (name : String) (calls : List Message.Member) : build name calls =
    { name
      fields := calls.filterMap Member.field?
      enums := calls.filterMap Member.enum?
      messages := calls.filterMap Member.message? } :=
  foldl_add calls { name }

/-! ## Texts one behind the other -/

namespace Source

/-- A text and another behind it, if there are both. -/
def appendText (first second : Except IndentOverflow String) : Except IndentOverflow String := do
  return (← first) ++ (← second)

/-- Texts one behind the other, if there are all of them. -/
def concat (texts : List (Except IndentOverflow String)) : Except IndentOverflow String :=
  texts.foldr appendText (.ok "")

theorem appendText_assoc (a b c : Except IndentOverflow String) :
    appendText (appendText a b) c = appendText a (appendText b c) := by
  cases a <;> cases b <;> cases c <;>
    simp [appendText, bind, Except.bind, pure, Except.pure, String.append_assoc]

theorem empty_appendText (a : Except IndentOverflow String) : appendText (.ok "") a = a := by
  cases a <;> simp [appendText, bind, Except.bind, pure, Except.pure]

theorem concat_append (xs ys : List (Except IndentOverflow String)) :
    concat (xs ++ ys) = appendText (concat xs) (concat ys) := by
  induction xs with
  | nil => rw [List.nil_append, show concat [] = .ok "" from rfl, empty_appendText]
  | cons x xs ih =>
    show appendText x (concat (xs ++ ys)) = appendText (appendText x (concat xs)) (concat ys)
    rw [ih, appendText_assoc]

/-- Lines are indented one by one, so those that come first decide first. -/
theorem render_append (width : Nat) (xs ys : List Line) :
    render width (xs ++ ys) = appendText (render width xs) (render width ys) := by
  simp only [render, List.mapM_append]
  cases xs.mapM (Line.render width) <;> cases ys.mapM (Line.render width) <;>
    simp [appendText, bind, Except.bind, pure, Except.pure, Except.map, String.join_append]

theorem render_flatMap {α : Type} (width : Nat) (f : α → List Line) (xs : List α) :
    render width (xs.flatMap f) = concat (xs.map fun x => render width (f x)) := by
  induction xs with
  | nil => rfl
  | cons x xs ih =>
    rw [List.flatMap_cons, render_append, ih]
    rfl

end Source

/-! ## Definitions and their texts -/

/-- The lines of a definition at the top, with the blank line behind it. -/
def Definition.lines : Definition → List Line
  | message m => m.lines 0 ++ [.blank]
  | enum e => e.lines 0 ++ [.blank]
  | service d => d.lines ++ [.blank]

/-- The text of a schema that has only this definition. -/
def Definition.render (width : Nat) (d : Definition) : Except IndentOverflow String :=
  (Schema.build [d]).render width

theorem Definition.render_eq (width : Nat) (d : Definition) :
    d.render width = Source.render width d.lines := by
  have hlines : (Schema.build [d]).lines = d.lines := by
    cases d <;> simp [Schema.build, Schema.add, Schema.addMessage, Schema.addEnum,
      Schema.addService, Schema.lines, lines]
  rw [Definition.render, Schema.render, hlines]

/-- The definitions of a schema: its messages, then its enums, then its services. -/
def Schema.contents (s : Schema) : List Definition :=
  s.messages.map .message ++ s.enums.map .enum ++ s.services.map .service

theorem Schema.lines_eq_flatMap (s : Schema) :
    s.lines = s.contents.flatMap Definition.lines := by
  simp only [lines, contents, List.flatMap_append, List.flatMap_map, Definition.lines]

/-- The text of a schema is the texts of its definitions, each as if it stood alone. -/
theorem Schema.render_eq_concat (width : Nat) (s : Schema) :
    s.render width = concat (s.contents.map (Definition.render width)) := by
  have hrender : Definition.render width = fun d => Source.render width d.lines :=
    funext (Definition.render_eq width)
  rw [Schema.render, lines_eq_flatMap, render_flatMap, hrender]

/-- A definition is added in one place among those that there are. -/
theorem Schema.exists_contents_add (s : Schema) (d : Definition) :
    ∃ before after, s.contents = before ++ after ∧
      (s.add d).contents = before ++ d :: after := by
  cases d with
  | message m =>
    refine ⟨s.messages.map .message, s.enums.map .enum ++ s.services.map .service, ?_, ?_⟩ <;>
      simp [contents, add, addMessage]
  | enum e =>
    refine ⟨s.messages.map .message ++ s.enums.map .enum, s.services.map .service, ?_, ?_⟩ <;>
      simp [contents, add, addEnum]
  | service d =>
    refine ⟨s.contents, [], ?_, ?_⟩ <;> simp [contents, add, addService]

/-- So its text is added in one place, and what stands around it is what stood there before. -/
theorem Schema.exists_insert_add (s : Schema) (d : Definition) :
    ∃ before after : List Definition, s.contents = before ++ after ∧
      (s.add d).contents = before ++ d :: after ∧ ∀ width,
      let front := concat (before.map (Definition.render width))
      let back := concat (after.map (Definition.render width))
      s.render width = appendText front back ∧
        (s.add d).render width = appendText front (appendText (d.render width) back) := by
  obtain ⟨before, after, hs, hadd⟩ := s.exists_contents_add d
  refine ⟨before, after, hs, hadd, fun width => ⟨?_, ?_⟩⟩
  · rw [render_eq_concat, hs, List.map_append, concat_append]
  · rw [render_eq_concat, hadd, List.map_append, concat_append, List.map_cons]
    rfl

/-! ## The law -/

/-- **The order of calls matters only within a kind.** A sequence of calls builds a schema, or a
message, with the arguments of the calls of each kind in their order. So two sequences with the same
calls of each kind build the same, and what they build has the same text at every width, or none.
The text of a schema is the texts of its definitions alone, first of the messages, then of the
enums, then of the services, in the order of the calls, and one more call adds the text of its
definition in one place. -/
theorem Schema.calls_commute_across_kinds :
    (∀ calls, (build calls).messages = calls.filterMap Definition.message? ∧
      (build calls).enums = calls.filterMap Definition.enum? ∧
      (build calls).services = calls.filterMap Definition.service?) ∧
    (∀ name calls, (Message.build name calls).name = name ∧
      (Message.build name calls).fields = calls.filterMap Message.Member.field? ∧
      (Message.build name calls).enums = calls.filterMap Message.Member.enum? ∧
      (Message.build name calls).messages = calls.filterMap Message.Member.message?) ∧
    (∀ calls calls', Definition.SameByKind calls calls' → build calls = build calls' ∧
      ∀ width, (build calls).render width = (build calls').render width) ∧
    (∀ name calls calls', Message.Member.SameByKind calls calls' →
      Message.build name calls = Message.build name calls' ∧
      ∀ width, (Definition.message (Message.build name calls)).render width
        = (Definition.message (Message.build name calls')).render width) ∧
    (∀ calls width, (build calls).render width =
      concat (((calls.filterMap Definition.message?).map Definition.message
        ++ (calls.filterMap Definition.enum?).map Definition.enum
        ++ (calls.filterMap Definition.service?).map Definition.service).map
          (Definition.render width))) ∧
    ∀ calls d, ∃ before after : List Definition, (build calls).contents = before ++ after ∧
      (build (calls ++ [d])).contents = before ++ d :: after ∧ ∀ width,
      let front := concat (before.map (Definition.render width))
      let back := concat (after.map (Definition.render width))
      (build calls).render width = appendText front back ∧
        (build (calls ++ [d])).render width
          = appendText front (appendText (d.render width) back) := by
  refine ⟨fun calls => ?_, fun name calls => ?_, fun calls calls' h => ?_,
    fun name calls calls' h => ?_, fun calls width => ?_, fun calls d => ?_⟩
  · rw [build_eq]
    exact ⟨rfl, rfl, rfl⟩
  · rw [Message.build_eq]
    exact ⟨rfl, rfl, rfl, rfl⟩
  · have hsame : build calls = build calls' := by
      rw [build_eq, build_eq, h.messages, h.enums, h.services]
    exact ⟨hsame, fun width => by rw [hsame]⟩
  · have hsame : Message.build name calls = Message.build name calls' := by
      rw [Message.build_eq, Message.build_eq, h.fields, h.enums, h.messages]
    exact ⟨hsame, fun width => by rw [hsame]⟩
  · rw [render_eq_concat, build_eq]
    rfl
  · have hlast : build (calls ++ [d]) = (build calls).add d := by
      rw [build, List.foldl_append]
      rfl
    rw [hlast]
    exact (build calls).exists_insert_add d

/-- A service before two messages with an enum between them. -/
def Schema.mixedCalls : List Definition :=
  [.service { name := "S" }, .message { name := "M", fields := [.singular "t" "f" 1] },
    .enum { name := "E" }, .message { name := "N" }]

/-- What they build is what they build kind by kind. It has a text as long as the field of the first
message can be indented, and the second message stands in it as it stands alone. -/
theorem Schema.calls_commute_across_kinds_mixed :
    let sorted : List Definition :=
      [.message { name := "M", fields := [.singular "t" "f" 1] }, .message { name := "N" },
        .enum { name := "E" }, .service { name := "S" }]
    build mixedCalls = build sorted ∧
      (build mixedCalls).render 65535 = (build sorted).render 65535 ∧
      (build mixedCalls).render 1 = .ok ("message M \x7b\n t f = 1;\n\x7d\n\n"
        ++ "message N \x7b\n\x7d\n\n" ++ "enum E \x7b\n\x7d\n\n" ++ "service S \x7b\n\x7d\n\n") ∧
      (Definition.message { name := "N" }).render 1 = .ok "message N \x7b\n\x7d\n\n" ∧
      (build mixedCalls).render 65536 = .error (.tooWide 1) := by
  intro sorted
  obtain ⟨-, -, hcommute, -⟩ := calls_commute_across_kinds
  obtain ⟨hsame, htext⟩ := hcommute mixedCalls sorted ⟨rfl, rfl, rfl⟩
  exact ⟨hsame, htext 65535, rfl, rfl, rfl⟩

end ProtoScribe

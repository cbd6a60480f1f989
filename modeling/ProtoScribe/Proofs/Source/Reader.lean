import ProtoScribe.Proofs.Source.Lines

/-!
# Reading proto source

A reader takes the lines of a text one after the other, as the words between their spaces. Lines
that open a block put a definition on a stack, all other lines of the block are added to it, and
the closing line hands the finished definition to what is open around it.

The kind of a line is told by its words alone: an opening line has three words and ends in a
brace, a closing line has one, and how a statement is read depends on the block that it is in.
-/

namespace ProtoScribe

open Source Text

/-! ## Words -/

/-- The words of a line: what stands between its spaces. -/
def Source.words (line : String) : List String :=
  ((line.toList.splitOn ' ').filter (· ≠ [])).map String.ofList

/-- A text that is one word. -/
structure Source.IsWord (s : String) : Prop where
  nonempty : s ≠ ""
  no_space : ' ' ∉ s.toList
  unbroken : Unbroken s

instance (s : String) : Decidable (IsWord s) :=
  decidable_of_iff (s ≠ "" ∧ ' ' ∉ s.toList ∧ Unbroken s)
    ⟨fun ⟨h₁, h₂, h₃⟩ => ⟨h₁, h₂, h₃⟩, fun ⟨h₁, h₂, h₃⟩ => ⟨h₁, h₂, h₃⟩⟩

/-- What stands in a word between two texts. -/
def Source.between? (front back word : String) : Option String :=
  let middle := String.ofList
    ((word.toList.drop front.toList.length).reverse.drop back.toList.length).reverse
  if front ++ middle ++ back = word then some middle else none

/-! ## Statements -/

/-- The label with the given keyword. -/
def Label.ofKeyword? (word : String) : Option Label :=
  [Label.optional, .required, .repeated].find? (·.keyword = some word)

/-- The number of a field, with the semicolon behind it. -/
def Field.tagOfWord? (word : String) : Option UInt32 := do
  let n ← (← between? "" ";" word).toNat?
  if n < UInt32.size then some (.ofNat n) else none

/-- A field with the given label. -/
def Field.ofParts? (label : Label) (typeName name tag : String) : Option Field :=
  (tagOfWord? tag).map fun tag => { label, typeName, name, tag }

/-- The field that words spell; a word in front of its type is its label's. -/
def Field.ofWords? : List String → Option Field
  | [typeName, name, "=", tag] => ofParts? .singular typeName name tag
  | [keyword, typeName, name, "=", tag] =>
    (Label.ofKeyword? keyword).bind fun label => ofParts? label typeName name tag
  | _ => none

/-- The number of an enum value, with the semicolon behind it. -/
def EnumValue.numberOfWord? (word : String) : Option Int32 := do
  let i ← (← between? "" ";" word).toInt?
  if Int32.minValue.toInt ≤ i ∧ i ≤ Int32.maxValue.toInt then some (.ofInt i) else none

/-- The enum value that words spell. -/
def EnumValue.ofWords? : List String → Option EnumValue
  | [name, "=", number] => (numberOfWord? number).map fun number => { name, number }
  | _ => none

/-- A type in parentheses at the front of words, whether it is a stream, and the words behind. -/
def Method.typeOfWords? (closing : String) : List String → Option ((Bool × String) × List String)
  | "(stream" :: word :: rest => (between? "" closing word).map fun type => ((true, type), rest)
  | word :: rest => (between? "(" closing word).map fun type => ((false, type), rest)
  | [] => none

/-- The method that words spell. -/
def Method.ofWords? : List String → Option Method
  | "rpc" :: name :: rest =>
    match typeOfWords? ")" rest with
    | some ((clientStreams, input), "returns" :: rest) =>
      match typeOfWords? ");" rest with
      | some ((serverStreams, output), []) =>
        some { name, input, output, clientStreams, serverStreams }
      | _ => none
    | _ => none
  | _ => none

/-! ## Blocks -/

/-- A definition whose block is open. -/
inductive Source.Frame where
  | message (m : Message)
  | enum (e : Enum)
  | service (d : Service)

/-- What an opening line opens. -/
def Source.Frame.ofWords? : List String → Option Frame
  | ["message", name, "\x7b"] => some (.message { name })
  | ["enum", name, "\x7b"] => some (.enum { name })
  | ["service", name, "\x7b"] => some (.service { name })
  | _ => none

/-- A definition with one more statement, as its kind reads it. -/
def Source.Frame.add? : Frame → List String → Option Frame
  | message m, ws => (Field.ofWords? ws).map fun f => message (m.addField f)
  | enum e, ws => (EnumValue.ofWords? ws).map fun v => enum (e.addValue v.name v.number)
  | service d, ws => (Method.ofWords? ws).map fun m => service (d.addMethod m)

/-- What is read so far: the definitions that are finished, and the open ones from the innermost
on. -/
structure Source.Reader where
  schema : Schema := {}
  frames : List Frame := []

namespace Source.Reader

/-- Hands a finished definition to what is open around it. Only messages hold definitions. -/
def close? : Frame → Reader → Option Reader
  | .message m, ⟨s, []⟩ => some ⟨s.addMessage m, []⟩
  | .enum e, ⟨s, []⟩ => some ⟨s.addEnum e, []⟩
  | .service d, ⟨s, []⟩ => some ⟨s.addService d, []⟩
  | .message m, ⟨s, .message outer :: frames⟩ => some ⟨s, .message (outer.addMessage m) :: frames⟩
  | .enum e, ⟨s, .message outer :: frames⟩ => some ⟨s, .message (outer.addEnum e) :: frames⟩
  | _, _ => none

/-- Takes the words of one line. -/
def step? (r : Reader) (ws : List String) : Option Reader :=
  match Frame.ofWords? ws with
  | some frame => some { r with frames := frame :: r.frames }
  | none =>
    match r.frames, ws with
    | [], [] => some r
    | [], _ => none
    | frame :: frames, ["\x7d"] => close? frame { r with frames }
    | frame :: frames, ws => (frame.add? ws).map fun frame => { r with frames := frame :: frames }

end Source.Reader

/-- The schema that a text spells. -/
def Schema.ofText? (t : String) : Option Schema :=
  match (Text.lines t).foldlM (fun (r : Reader) line => r.step? (words line)) {} with
  | some ⟨s, []⟩ => some s
  | _ => none

end ProtoScribe

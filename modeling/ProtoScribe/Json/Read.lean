import ProtoScribe.Document.Shape
import ProtoScribe.Json.Parse

/-!
# Reading values from JSON

What a tree means under a shape. A record is an object, or an array of its parts in order. Values
are read in the order of the text, so the first fault in the text is the one that shows.

At most `depthLimit` arrays and objects may nest around a value that a shape asks for. Values that
no shape asks for may nest without limit.
-/

namespace ProtoScribe.Json

open Document

/-- How many arrays and objects may nest. -/
def depthLimit : Nat := 127

namespace Tree

/-- The fault of a sound value of a wrong kind; it shows at `offset`. -/
def mismatch {α : Type} (found : Found) (expected : String) (offset : Nat) : Except Fault α :=
  .error ⟨.complaint (.wrongType found expected), offset⟩

/-- Refuses the value where messages call the wanted one `expected`. -/
def refuse {α : Type} (expected : String) : Tree → Except Fault α
  | null _ stop => mismatch .nothing expected stop
  | flag value _ stop => mismatch (.flag value) expected stop
  | number _ literal => do
    match ← literal.strict with
    | .integer value => mismatch (.integer value) expected literal.stop
    | .real value => mismatch (.real value) expected literal.stop
  | string _ literal => do mismatch (.text (← literal.strict)) expected literal.stop
  | array start _ _ => mismatch .sequence expected start
  | object start _ _ => mismatch .mapping expected start
  | brokenWord _ _ f => .error f
  | fault _ f => .error f

/-- A string, which messages call `expected`. -/
def readText (expected : String) : Tree → Except Fault String
  | string _ literal => literal.strict
  | t => t.refuse expected

/-- One of the words for truth values. -/
def readFlag : Tree → Except Fault Bool
  | flag value _ _ => .ok value
  | t => t.refuse "a boolean"

/-- A number of the given range that is spelled as an integer. -/
def readInteger {α : Type} (kind : IntegerKind α) : Tree → Except Fault α
  | number start literal => do
    match ← literal.strict with
    | .integer value =>
      match kind.ofInt? value with
      | some a => .ok a
      | none => .error ⟨.complaint (.wrongValue (.integer value) kind.name), literal.stop⟩
    | .real _ => refuse kind.name (number start literal)
  | t => t.refuse kind.name

/-- Checks that an array or object at `start` may open. -/
def enter (start : Nat) : (depth : Nat) → Except Fault Nat
  | 0 => .error ⟨.nestedTooDeep, start + 1⟩
  | depth + 1 => .ok depth

/-! ## Choices -/

/-- The word of a choice. -/
def readWord {α : Type} (words : List (String × α)) (literal : Literal String) : Except Fault α := do
  let word ← literal.strict
  match words.lookup word with
  | some a => .ok a
  | none => .error ⟨.complaint (.unknownChoice word (words.map Prod.fst)), literal.stop⟩

/-- Checks that nothing but a closing brace follows the value of a choice's object. -/
def closeChoice {α : Type} (a : α) (next : Nat) : List (Member Tree) → Close Tree → Except Fault α
  | [], .closed _ => .ok a
  | [], .ended length => .error ⟨.endInObject, length⟩
  | _, _ => .error ⟨.valueExpected, next⟩

/-- A choice is a word, or an object that maps it to null. -/
def readChoice {α : Type} (words : List (String × α)) (depth : Nat) : Tree → Except Fault α
  | string _ literal => readWord words literal
  | object start members close => do
    let _ ← enter start depth
    match members, close with
    | ⟨key, _, value, next⟩ :: members, close => do
      let a ← readWord words key
      match value with
      | null _ _ => closeChoice a next members close
      | value => value.refuse "unit"
    | [], .badKey found => .error ⟨.keyExpected, found.start + 1⟩
    | [], .closed stop => .error ⟨.valueExpected, stop⟩
    | [], .ended length => .error ⟨.endInObject, length⟩
    | [], _ => .error ⟨.valueExpected, start + 1⟩
  | fault _ f => .error f
  | t => .error ⟨.valueExpected, t.start + 1⟩

/-! ## Lists and records -/

/-- Checks the end of an array of which all items are read. -/
def closeArray : Close Tree → Except Fault Nat
  | .closed stop => .ok stop
  | .noSeparator start => .error ⟨.arraySeparatorExpected, start + 1⟩
  | .trailingComma start => .error ⟨.trailingComma, start + 1⟩
  | .endAfterComma length => .error ⟨.endInValue, length⟩
  | .ended length => .error ⟨.endInArray, length⟩
  | .badKey found => .error ⟨.valueExpected, found.start⟩
  | .stopped => .error ⟨.endInArray, 0⟩

/-- Checks that an array ends after the last part of a record. -/
def closeParts : List Tree → Close Tree → Except Fault Unit
  | t :: _, _ => .error ⟨.trailingCharacters, t.start + 1⟩
  | [], .noSeparator start => .error ⟨.trailingCharacters, start + 1⟩
  | [], .endAfterComma length => .error ⟨.trailingCharacters, length⟩
  | [], close => do let _ ← closeArray close

/-- Checks the end of an object of which all members are read. -/
def closeObject : Close Tree → Except Fault Nat
  | .closed stop => .ok stop
  | .noSeparator start => .error ⟨.objectSeparatorExpected, start + 1⟩
  | .trailingComma start => .error ⟨.trailingComma, start + 1⟩
  | .badKey found => .error ⟨.keyExpected, found.start + 1⟩
  | .endAfterComma length => .error ⟨.endInValue, length⟩
  | .ended length => .error ⟨.endInObject, length⟩
  | .stopped => .error ⟨.endInObject, 0⟩

/-- Reads the items of a list in order. -/
def readItems {α : Type} (read : Tree → Except Fault α) : List Tree → Except Fault (List α)
  | [] => .ok []
  | t :: ts => do return (← read t) :: (← readItems read ts)

/-- Adds the members of a record to what is known of it. A member has a name that is known, and is
put among the parts, or it is passed over. -/
def readMembers {γ : Type} (closed : Bool) (parts : Parts γ)
    (put : String → Tree → parts.Draft → Except Fault parts.Draft) :
    List (Member Tree) → parts.Draft → Except Fault parts.Draft
  | [], draft => .ok draft
  | ⟨key, colonAt, value, _⟩ :: members, draft => do
    let name ← key.strict
    if name ∈ parts.names then
      if parts.has name draft then .error ⟨.complaint (.duplicate name), colonAt⟩
      else readMembers closed parts put members (← put name value draft)
    else if closed then .error ⟨.complaint (.unknownKey name parts.names), key.stop⟩
    else
      match value.looseFault with
      | some f => .error f
      | none => readMembers closed parts put members draft

mutual

/-- What a tree means under a shape, where `depth` more arrays and objects may open. -/
def read : {α : Type} → Shape α → (depth : Nat) → Tree → Except Fault α
  | _, .text expected, _, t => t.readText expected
  | _, .integer kind, _, t => t.readInteger kind
  | _, .flag, _, t => t.readFlag
  | _, .choice words, depth, t => t.readChoice words depth
  | _, .optional shape, depth, t =>
    match t with
    | null _ _ => .ok none
    | brokenWord .null _ f => .error f
    | t => some <$> read shape depth t
  | _, .list shape, depth, t =>
    match t with
    | array start items close => do
      let depth ← enter start depth
      let as ← readItems (read shape depth) items
      let _ ← closeArray close
      return as
    | t => t.refuse "a sequence"
  | _, .record name closed parts build, depth, t =>
    match t with
    | object start members close => do
      let depth ← enter start depth
      let draft ← readMembers closed parts (readPart parts depth) members parts.blank
      let stop ← closeObject close
      match parts.finish draft with
      | .ok c => return build c
      | .error name => .error ⟨.complaint (.missing name), stop⟩
    | array start items close => do
      let depth ← enter start depth
      let (c, rest) ← readParts parts depth items fun index => do
        let stop ← closeArray close
        return ⟨.complaint (.wrongLength index (recordName name ++ " with "
          ++ toString parts.names.length ++ " elements")), stop⟩
      closeParts rest close
      return build c
    | t => t.refuse (recordName name)
  | _, .beyond, _, t => .error ⟨.nestedTooDeep, t.start + 1⟩

/-- Reads the part of the given name. -/
def readPart : {γ : Type} → (parts : Parts γ) → (depth : Nat) → String → Tree → parts.Draft →
    Except Fault parts.Draft
  | _, .none, _, _, _, draft => .ok draft
  | _, .part name _ shape rest, depth, key, t, draft =>
    if name = key then do return (some (← read shape depth t), draft.2)
    else do return (draft.1, ← readPart rest depth key t draft.2)

/-- Reads parts from the items of an array in order, and returns the items that are left. -/
def readParts : {γ : Type} → (parts : Parts γ) → (depth : Nat) → List Tree →
    (short : Nat → Except Fault Fault) → Except Fault (γ × List Tree)
  | _, .none, _, items, _ => .ok ((), items)
  | _, .part _ _ shape rest, depth, t :: items, short => do
    let a ← read shape depth t
    let (c, items) ← readParts rest depth items fun index => short (index + 1)
    return ((a, c), items)
  | _, .part _ default _ rest, depth, [], short => do
    let fault ← short 0
    match default with
    | none => .error fault
    | some a =>
      let (c, items) ← readParts rest depth [] fun index => short (index + 1)
      return ((a, c), items)

end

end Tree

/-- What a parse means under a shape; nothing may follow the value. -/
def Parse.read {α : Type} (shape : Shape α) (parse : Parse) : Except Fault α := do
  let a ← parse.root.read shape depthLimit
  match parse.trailing with
  | some start => .error ⟨.trailingCharacters, start + 1⟩
  | none => return a

/-- What a text means under a shape. -/
def read {α : Type} (shape : Shape α) (text : String) : Except Error α :=
  ((Parse.ofText text).read shape).mapError (·.locate text)

end ProtoScribe.Json

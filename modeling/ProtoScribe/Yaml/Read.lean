import ProtoScribe.Document.Shape
import ProtoScribe.Yaml.Anchor
import ProtoScribe.Yaml.Error
import ProtoScribe.Yaml.Resolve

/-!
# Reading values from YAML

What a document means under a shape. A record is a mapping. An empty plain scalar stands for a list
or record without anything in it.

At most `depthLimit` sequences and mappings may nest around a value, aliases followed. Each alias
that is followed counts, and a document may have no more than `repetitionFactor` times as many of
them as it has nodes.
-/

namespace ProtoScribe.Yaml

open ProtoScribe.Document (Complaint IntegerKind Parts Shape recordName)

/-- How many sequences and mappings may nest. -/
def depthLimit : Nat := 128

/-- How many aliases may be followed for each node. -/
def repetitionFactor : Nat := 100

/-- A reading: it counts the aliases that it follows. -/
abbrev Reading : Type → Type := StateT Nat (Except Error)

namespace Reading

/-- A reading that ends with an error. -/
def fail {α : Type} (e : Error) : Reading α := fun _ => .error e

/-- A complaint without a place. -/
def complain {α : Type} (c : Complaint) : Reading α := fail (.complaint c none)

/-- Gives a place to a complaint that has none yet. -/
def within {α : Type} (place : Place) (r : Reading α) : Reading α := fun jumps =>
  match r jumps with
  | .error (.complaint c none) => .error (.complaint c (some place))
  | result => result

end Reading

open Reading

namespace LinkedNode

/-- Refuses a node where messages call the wanted value `expected`. -/
def refuse {α : Type} (expected : String) : LinkedNode → Reading α
  | .scalar head style text => complain (scalarComplaint expected head.tag style text)
  | .sequence _ _ => complain (.wrongType .sequence expected)
  | .mapping _ _ => complain (.wrongType .mapping expected)
  | .alias _ _ => fail .malformed

/-- The node itself, or the node that an alias stands for. -/
def follow (d : Document) (n : LinkedNode) : Reading LinkedNode := fun jumps =>
  match n with
  | .alias _ slot =>
    if (d.root.elim 1 Node.weight) * repetitionFactor < jumps + 1 then .error .repeatedTooOften
    else
      match d.slot? slot with
      | some target => .ok (target, jumps + 1)
      | none => .error .malformed
  | n => .ok (n, jumps)

/-- Whether a scalar may be a number or truth value, whose standard tag is `tag`. -/
def isBare (tag : TagBytes) (head : NodeHead) (style : ScalarStyle) : Bool :=
  style = .plain || (style = .literal && head.tag = some tag)

/-- Whether a scalar stands for an empty list or record. -/
def isBlank (style : ScalarStyle) (text : String) : Bool := style = .plain && text = ""

/-- Any scalar, which messages call `expected`. -/
def readText (expected : String) : LinkedNode → Reading String
  | .scalar _ _ text => pure text
  | n => refuse expected n

/-- A bare scalar that is a truth value. -/
def readFlag (n : LinkedNode) : Reading Bool :=
  match n with
  | .scalar head style text =>
    match if isBare Tag.flag head style then Plain.flag? text else none with
    | some b => pure b
    | none => refuse "a boolean" n
  | n => refuse "a boolean" n

/-- The integer that a text spells, among those of 64 bits with a sign or without. -/
def narrowInteger? (signed : Bool) (text : String) : Option Int :=
  if signed then
    (Plain.integer? text).filter fun i => Int64.minValue.toInt ≤ i ∧ i ≤ Int64.maxValue.toInt
  else ((Plain.unsigned? text.toList).map Int.ofNat).filter (· < UInt64.size)

/-- A bare scalar that is an integer of the given range. -/
def readInteger {α : Type} (kind : IntegerKind α) (n : LinkedNode) : Reading α :=
  match n with
  | .scalar head style text =>
    match if isBare Tag.integer head style then narrowInteger? kind.isSigned text else none with
    | some i =>
      match kind.ofInt? i with
      | some a => pure a
      | none => complain (.wrongValue (.integer i) kind.name)
    | none => refuse kind.name n
  | n => refuse kind.name n

/-! ## Choices -/

/-- The word of a choice. -/
def readWord {α : Type} (words : List (String × α)) (word : String) : Reading α :=
  match words.lookup word with
  | some a => pure a
  | none => complain (.unknownChoice word (words.map Prod.fst))

/-- Checks that what a tag stands before is nothing. -/
def readNothing (n : LinkedNode) : Reading Unit :=
  match n with
  | .scalar _ style text =>
    if style = .plain ∧ (text = "" ∨ Plain.isNull text) then pure ()
    else complain (.wrongValue (.text text) "null")
  | n => refuse "unit" n

/-- The head of a node that is no alias. -/
def head? : LinkedNode → Option NodeHead
  | .scalar head _ _ | .sequence head _ | .mapping head _ => some head
  | .alias _ _ => none

/-- A choice is a word, or a local tag before nothing. A tag that is none of the words is not
complained about in its own place, but in that of whatever leads to it. -/
def readChoice {α : Type} (words : List (String × α)) (place : Place) (n : LinkedNode) : Reading α :=
  match n.head?.bind fun head => head.tag.bind Tag.word? with
  | some word => do
    let a ← readWord words word
    within place (readNothing n)
    return a
  | none =>
    within place <|
      match n with
      | .scalar _ _ text => readWord words text
      | n => refuse "a YAML tag starting with '!'" n

/-- Whether a value that may be left blank is there. A scalar whose tag says that it is null has to
be so. -/
def isPresent : LinkedNode → Reading Bool
  | .scalar head style text =>
    if style ≠ .plain then pure true
    else
      match head.tag with
      | some tag =>
        if tag ≠ Tag.null then pure true
        else if Plain.isNull text then pure false
        else complain (.wrongValue (.text text) "null")
      | none => pure !(text = "" || Plain.isNull text)
  | _ => pure true

/-! ## Lists and records -/

/-- Checks that a sequence or mapping may open. -/
def enter (mark : Mark) : (depth : Nat) → Reading Nat
  | 0 => fail (.nestedTooDeep mark)
  | depth + 1 => pure depth

/-- Reads the items of a list in order, the first of which has the given index. -/
def readItems {α : Type} (read : Path → LinkedNode → Reading α) (path : Path) (index : Nat) :
    List LinkedNode → Reading (List α)
  | [] => pure []
  | n :: ns => do
    let a ← read (.index index :: path) n
    return a :: (← readItems read path (index + 1) ns)

/-- The step from a mapping to the value of a key. -/
def stepOf (key : LinkedNode) (name : String) : PathStep :=
  match key with
  | .alias _ _ => .unnamed
  | _ => .key name

/-- Reads the name of a key. -/
def readKey (d : Document) (closed : Bool) (names : List String) (path : Path) (key : LinkedNode) :
    Reading String := do
  let key ← follow d key
  within ⟨path, key.mark⟩ do
    let name ← readText "field identifier" key
    if closed ∧ name ∉ names then complain (.unknownKey name names) else pure name

/-- Adds the pairs of a mapping to what is known of a record. A key whose name is unknown is passed
over with its value. -/
def readPairs {γ : Type} (d : Document) (closed : Bool) (parts : Parts γ) (path : Path)
    (put : String → Path → LinkedNode → parts.Draft → Reading parts.Draft) :
    List (LinkedNode × LinkedNode) → parts.Draft → Reading parts.Draft
  | [], draft => pure draft
  | (key, value) :: pairs, draft => do
    let name ← readKey d closed parts.names path key
    if name ∈ parts.names then
      if parts.has name draft then complain (.duplicate name)
      else
        let draft ← put name (stepOf key name :: path) value draft
        readPairs d closed parts path put pairs draft
    else readPairs d closed parts path put pairs draft

/-- The values of a record's parts. -/
def finish {γ : Type} (parts : Parts γ) (draft : parts.Draft) : Reading γ :=
  match parts.finish draft with
  | .ok c => pure c
  | .error name => complain (.missing name)

mutual

/-- What a node at `path` means under a shape, where `depth` more sequences and mappings may
open. -/
def read (d : Document) : {α : Type} → Shape α → (depth : Nat) → Path → LinkedNode → Reading α
  | _, .text expected, _, path, n => do
    let n ← follow d n
    within ⟨path, n.mark⟩ (readText expected n)
  | _, .integer kind, _, path, n => do
    let n ← follow d n
    within ⟨path, n.mark⟩ (readInteger kind n)
  | _, .flag, _, path, n => do
    let n ← follow d n
    within ⟨path, n.mark⟩ (readFlag n)
  | _, .choice words, _, path, n =>
    let chosen := do
      let n ← follow d n
      readChoice words ⟨path, n.mark⟩ n
    match n with
    | .alias mark _ => within ⟨path, mark⟩ chosen
    | _ => chosen
  | _, .optional shape, depth, path, n => do
    let n ← follow d n
    if ← isPresent n then
      let a ← read d shape depth path n
      return some a
    else return none
  | _, .list shape, depth, path, n => do
    let n ← follow d n
    within ⟨path, n.mark⟩ <|
      match n with
      | .sequence head items => do
        let depth ← enter head.mark depth
        readItems (read d shape depth) path 0 items
      | .scalar head style text =>
        if isBlank style text then pure [] else refuse "a sequence" (.scalar head style text)
      | n => refuse "a sequence" n
  | _, .record name closed parts build, depth, path, n => do
    let n ← follow d n
    within ⟨path, n.mark⟩ <|
      match n with
      | .mapping head pairs => do
        let depth ← enter head.mark depth
        let draft ← readPairs d closed parts path (readPart d parts depth) pairs parts.blank
        let c ← finish parts draft
        return build c
      | .scalar head style text =>
        if isBlank style text then do
          let c ← finish parts parts.blank
          return build c
        else refuse (recordName name) (.scalar head style text)
      | n => refuse (recordName name) n
  | _, .beyond, _, _, n => fail (.nestedTooDeep n.mark)

/-- Reads the part of the given name. -/
def readPart (d : Document) : {γ : Type} → (parts : Parts γ) → (depth : Nat) → String → Path →
    LinkedNode → parts.Draft → Reading parts.Draft
  | _, .none, _, _, _, _, draft => pure draft
  | _, .part name _ shape rest, depth, key, path, n, draft =>
    if name = key then do
      let a ← read d shape depth path n
      return (some a, draft.2)
    else do
      let later ← readPart d rest depth key path n draft.2
      return (draft.1, later)

end

end LinkedNode

/-- What a document without a root means under a shape. -/
def readBlank {α : Type} (shape : Shape α) : Except Error α :=
  match shape with
  | .optional _ => .ok none
  | .list _ => .ok []
  | .record _ _ parts build =>
    match parts.finish parts.blank with
    | .ok c => .ok (build c)
    | .error name => .error (.complaint (.missing name) (some ⟨[], {}⟩))
  | _ => .error .ended

/-- What the first document of a text means under a shape; nothing may follow it. -/
def Document.read {α : Type} (shape : Shape α) (d : Document) : Except Error α := do
  let a ← match d.root with
    | none => readBlank shape
    | some root => (LinkedNode.read d shape depthLimit [] root 0).map Prod.fst
  if d.more then .error .severalDocuments else return a

/-- What a text means under a shape. -/
def read {α : Type} (shape : Shape α) (text : String) : Except Error α :=
  match Document.ofText? text with
  | none => .error .malformed
  | some d => d.read shape

end ProtoScribe.Yaml

import ProtoScribe.Yaml.Compose
import ProtoScribe.Yaml.Lexer

/-!
# Anchors and aliases

An alias refers to the last node before it whose anchor has its name, through a numbered slot. A
new binding takes the slot whose number is the count of names so far, and a binding of a known name
adds no name. So a slot can be taken twice; what it holds in the end is what all its aliases mean.
-/

namespace ProtoScribe.Yaml

/-- A node in which aliases refer to slots. -/
abbrev LinkedNode : Type := Node Nat

/-- The slot of each name so far. -/
abbrev Anchors : Type := List (String × Nat)

/-- Binds a name to a slot. -/
def Anchors.bind (anchors : Anchors) (name : String) : Anchors :=
  let slot := anchors.length
  if (anchors.lookup name).isSome then
    anchors.map fun (n, s) => if n = name then (n, slot) else (n, s)
  else (name, slot) :: anchors

/-- A part of a document with its aliases linked. -/
structure Linked (α : Type) where
  value : α
  /-- The slots of all names once the part has been read. -/
  anchors : Anchors
  /-- What the part puts into slots, in the order of the text. -/
  slots : List (Nat × LinkedNode) := []

/-- Binds the anchor of a node's head. -/
def NodeHead.bind (head : NodeHead) (anchors : Anchors) : Anchors :=
  head.anchor.elim anchors anchors.bind

/-- Puts a node with an anchor into its slot, before what its parts put into theirs. -/
def Linked.place (head : NodeHead) (before : Anchors) (l : Linked LinkedNode) : Linked LinkedNode :=
  if head.anchor.isSome then { l with slots := (before.length, l.value) :: l.slots } else l

mutual

/-- Links the aliases of a node. An alias without an anchor before it is an error. -/
def Node.link (anchors : Anchors) : Node String → Option (Linked LinkedNode)
  | .alias mark name => do return ⟨.alias mark (← anchors.lookup name), anchors, []⟩
  | .scalar head style text =>
    some (Linked.place head anchors ⟨.scalar head style text, head.bind anchors, []⟩)
  | .sequence head items => do
    let l ← linkItems (head.bind anchors) items
    return Linked.place head anchors ⟨.sequence head l.value, l.anchors, l.slots⟩
  | .mapping head pairs => do
    let l ← linkPairs (head.bind anchors) pairs
    return Linked.place head anchors ⟨.mapping head l.value, l.anchors, l.slots⟩

/-- Links the aliases of items in order. -/
def linkItems (anchors : Anchors) : List (Node String) → Option (Linked (List LinkedNode))
  | [] => some ⟨[], anchors, []⟩
  | n :: ns => do
    let first ← Node.link anchors n
    let others ← linkItems first.anchors ns
    return ⟨first.value :: others.value, others.anchors, first.slots ++ others.slots⟩

/-- Links the aliases of keys and values in order. -/
def linkPairs (anchors : Anchors) :
    List (Node String × Node String) → Option (Linked (List (LinkedNode × LinkedNode)))
  | [] => some ⟨[], anchors, []⟩
  | (k, v) :: ps => do
    let key ← Node.link anchors k
    let value ← Node.link key.anchors v
    let others ← linkPairs value.anchors ps
    return ⟨(key.value, value.value) :: others.value, others.anchors,
      key.slots ++ value.slots ++ others.slots⟩

end

/-- The first document of a text. -/
structure Document where
  root : Option LinkedNode
  /-- What aliases refer to. -/
  slots : List (Nat × LinkedNode) := []
  /-- Whether anything follows the document. -/
  more : Bool := false
  deriving Repr, Inhabited

/-- The node that a slot holds in the end. -/
def Document.slot? (d : Document) (slot : Nat) : Option LinkedNode := d.slots.reverse.lookup slot

/-- The first document of a text, if the text is well-formed up to its end. -/
def Document.ofText? (text : String) : Option Document := do
  let (gs, last) ← glyphs? text
  let first ← Compose.firstDocument (.ofGlyphs gs last)
  match first.root with
  | none => return { root := none, more := first.more }
  | some root =>
    let l ← Node.link [] root
    return { root := some l.value, slots := l.slots, more := first.more }

end ProtoScribe.Yaml

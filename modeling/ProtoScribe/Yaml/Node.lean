import ProtoScribe.Yaml.Token

/-!
# YAML nodes

A document is a tree of scalars, sequences and mappings, in which an alias stands for a node with
an anchor. Every node knows where it starts: at its anchor or tag, if it has one. Where a node is
left out, an empty plain scalar stands in its place.
-/

namespace ProtoScribe.Yaml

/-- What precedes a node, and where the node starts. -/
structure NodeHead where
  mark : Mark
  anchor : Option String := none
  tag : Option TagBytes := none
  deriving DecidableEq, Repr, Inhabited

/-- A node in which an alias refers to its target by a `τ`. -/
inductive Node (τ : Type) where
  | scalar (head : NodeHead) (style : ScalarStyle) (text : String)
  | sequence (head : NodeHead) (items : List (Node τ))
  | mapping (head : NodeHead) (pairs : List (Node τ × Node τ))
  | alias (mark : Mark) (target : τ)
  deriving Repr, Inhabited

namespace Node

/-- The node that stands where none is written. -/
def empty {τ : Type} (mark : Mark) : Node τ := .scalar ⟨mark, none, none⟩ .plain ""

/-- Where the node starts. -/
def mark {τ : Type} : Node τ → Mark
  | scalar head _ _ | sequence head _ | mapping head _ => head.mark
  | .alias mark _ => mark

mutual

/-- The number of scalars and aliases in a node, with two for each sequence and mapping. -/
def weight {τ : Type} : Node τ → Nat
  | scalar _ _ _ => 1
  | sequence _ items => 2 + weightOfItems items
  | mapping _ pairs => 2 + weightOfPairs pairs
  | .alias _ _ => 1

/-- The weight of all items. -/
def weightOfItems {τ : Type} : List (Node τ) → Nat
  | [] => 0
  | n :: ns => n.weight + weightOfItems ns

/-- The weight of all keys and values. -/
def weightOfPairs {τ : Type} : List (Node τ × Node τ) → Nat
  | [] => 0
  | (k, v) :: ps => k.weight + v.weight + weightOfPairs ps

end

end Node

end ProtoScribe.Yaml

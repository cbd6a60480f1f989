/-!
# Shapes of documents

A shape says which values of a document mean something, and what. It knows no format: each format
has its own way to read a value of a given shape, by recursion on the shape.

A record has named parts in a fixed order. Each part has a shape of its own, and some have a value
to take where the document leaves them out.
-/

namespace ProtoScribe.Document

/-- A range of integers that has a name. -/
structure IntegerKind (α : Type) where
  name : String
  least : Int
  greatest : Int
  ofInt : Int → α

namespace IntegerKind

/-- Whether the range has numbers below zero. -/
def isSigned {α : Type} (kind : IntegerKind α) : Bool := kind.least < 0

/-- What an integer in the range means. -/
def ofInt? {α : Type} (kind : IntegerKind α) (i : Int) : Option α :=
  if kind.least ≤ i ∧ i ≤ kind.greatest then some (kind.ofInt i) else none

end IntegerKind

mutual

/-- What a value of a document has to look like, indexed by what it then means. -/
inductive Shape : Type → Type 1 where
  /-- Any text; messages call it `expected`. -/
  | text (expected : String) : Shape String
  | integer {α : Type} (kind : IntegerKind α) : Shape α
  | flag : Shape Bool
  /-- One of some words. -/
  | choice {α : Type} (words : List (String × α)) : Shape α
  /-- A value that may be left blank. -/
  | optional {α : Type} (shape : Shape α) : Shape (Option α)
  | list {α : Type} (shape : Shape α) : Shape (List α)
  /-- Named parts; a `closed` record admits no other names. -/
  | record {α γ : Type} (name : String) (closed : Bool) (parts : Parts γ) (build : γ → α) : Shape α
  /-- Stands where a document would have to nest deeper than any may. -/
  | beyond {α : Type} : Shape α

/-- The parts of a record in order, indexed by the product of what they mean. -/
inductive Parts : Type → Type 1 where
  | none : Parts Unit
  | part {α γ : Type} (name : String) (default : Option α) (shape : Shape α) (rest : Parts γ) :
    Parts (α × γ)

end

/-- Text that nothing else is asked of. -/
def Shape.string : Shape String := .text "a string"

namespace Parts

/-! ## Parts of common shapes -/

/-- Text that has to be there. -/
def string {γ : Type} (name : String) (rest : Parts γ) : Parts (String × γ) :=
  .part name Option.none Shape.string rest

/-- A flag that may be left out. -/
def flag {γ : Type} (name : String) (default : Bool) (rest : Parts γ) : Parts (Bool × γ) :=
  .part name (some default) .flag rest

/-- A list that is empty where it is left out. -/
def list {α γ : Type} (name : String) (shape : Shape α) (rest : Parts γ) : Parts (List α × γ) :=
  .part name (some []) (.list shape) rest

/-! ## Collecting parts -/

/-- The names of all parts. -/
def names : {γ : Type} → Parts γ → List String
  | _, .none => []
  | _, .part name _ _ rest => name :: rest.names

/-- What is known of a record's parts while it is read. -/
def Draft : {γ : Type} → Parts γ → Type
  | _, .none => Unit
  | _, .part (α := α) _ _ _ rest => Option α × rest.Draft

/-- Nothing is known yet. -/
def blank : {γ : Type} → (parts : Parts γ) → parts.Draft
  | _, .none => ()
  | _, .part _ _ _ rest => (Option.none, rest.blank)

/-- Whether the part of a given name is known already. -/
def has (key : String) : {γ : Type} → (parts : Parts γ) → parts.Draft → Bool
  | _, .none, _ => false
  | _, .part name _ _ rest, draft => if name = key then draft.1.isSome else rest.has key draft.2

/-- The values of all parts, or the first name that has neither a value nor a default. -/
def finish : {γ : Type} → (parts : Parts γ) → parts.Draft → Except String γ
  | _, .none, _ => .ok ()
  | _, .part name default _ rest, draft =>
    match draft.1 <|> default with
    | Option.none => .error name
    | some a => (rest.finish draft.2).map (a, ·)

end Parts

/-- How messages call a record. -/
def recordName (name : String) : String := "struct " ++ name

end ProtoScribe.Document

import ProtoScribe.Json.Fault

/-!
# JSON literals

A literal of which the value is wanted is read strictly; one that is passed over is read loosely.
The two agree on where a sound literal ends, but each finds faults that the other does not mind.
-/

namespace ProtoScribe.Json

/-- A number or string literal as it stands in the text. -/
structure Literal (α : Type) where
  /-- What the literal means, or why it cannot be read. -/
  strict : Except Fault α
  /-- Why the literal cannot be passed over, if it cannot. -/
  loose : Option Fault
  /-- The offset after the literal. -/
  stop : Nat
  deriving Repr

instance {α : Type} : Inhabited (Literal α) := ⟨⟨.error default, none, 0⟩⟩

/-- A literal that is broken in the same way for either reading. -/
def Literal.broken {α : Type} (cause : Cause) (offset : Nat) : Literal α :=
  ⟨.error ⟨cause, offset⟩, some ⟨cause, offset⟩, offset⟩

end ProtoScribe.Json

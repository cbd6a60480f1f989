import ProtoScribe.Json.Token

/-!
# JSON trees

The value that a text spells, as far as the text goes. Where the text is broken the tree says so:
a value can be a fault, and an array or object can close badly. Nothing follows such a place, so a
tree has at most one of them, the last thing in it.

Whether a broken place matters depends on the reader, who may have stopped before it. `looseFault`
is the judgement on a value that is only passed over.
-/

namespace ProtoScribe.Json

/-- How an array or object ends. -/
inductive Close (τ : Type) where
  /-- With its bracket, which ends at `stop`. -/
  | closed (stop : Nat)
  /-- After a value comes something other than a comma or the bracket. -/
  | noSeparator (start : Nat)
  /-- After a comma comes the bracket. -/
  | trailingComma (start : Nat)
  /-- Where a key should stand comes something else. -/
  | badKey (found : τ)
  /-- The text ends after a comma. -/
  | endAfterComma (length : Nat)
  /-- The text ends. -/
  | ended (length : Nat)
  /-- The last value is broken. -/
  | stopped
  deriving Repr, Inhabited

/-- A key of an object with its value. -/
structure Member (τ : Type) where
  key : Literal String
  /-- Where the colon has to stand, or after a closing brace that stands there instead. -/
  colonAt : Nat
  value : τ
  /-- Where the text goes on after the value. -/
  next : Nat
  deriving Repr, Inhabited

/-- The value that a text spells. -/
inductive Tree where
  | null (start stop : Nat)
  | flag (value : Bool) (start stop : Nat)
  | number (start : Nat) (literal : Literal Number)
  | string (start : Nat) (literal : Literal String)
  | array (start : Nat) (items : List Tree) (close : Close Tree)
  | object (start : Nat) (members : List (Member Tree)) (close : Close Tree)
  /-- A word that goes wrong after its first letter. -/
  | brokenWord (word : Word) (start : Nat) (fault : Fault)
  /-- No value stands here. -/
  | fault (start : Nat) (fault : Fault)
  deriving Repr, Inhabited

namespace Tree

/-- Where the value starts. -/
def start : Tree → Nat
  | null start _ | flag _ start _ | number start _ | string start _ | array start _ _
  | object start _ _ | brokenWord _ start _ | fault start _ => start

/-! ## Values that are passed over -/

end Tree

/-- Why the end of an array that is passed over is a fault, if it is. -/
def Close.looseArrayFault {τ : Type} : Close τ → Option Fault
  | closed _ | stopped | badKey _ => none
  | noSeparator start => some ⟨.arraySeparatorExpected, start + 1⟩
  | trailingComma start => some ⟨.valueExpected, start + 1⟩
  | endAfterComma length => some ⟨.endInValue, length⟩
  | ended length => some ⟨.endInArray, length⟩

/-- Why the end of an object that is passed over is a fault, if it is. -/
def Close.looseObjectFault : Close Tree → Option Fault
  | closed _ | stopped => none
  | noSeparator start => some ⟨.objectSeparatorExpected, start + 1⟩
  | trailingComma start => some ⟨.keyExpected, start + 1⟩
  | badKey found => some ⟨.keyExpected, found.start + 1⟩
  | endAfterComma length | ended length => some ⟨.endInObject, length⟩

namespace Tree

mutual

/-- The first fault of a value that is passed over. -/
def looseFault : Tree → Option Fault
  | null _ _ | flag _ _ _ => none
  | number _ literal => literal.loose
  | string _ literal => literal.loose
  | array _ items close => looseFaultOfItems items <|> close.looseArrayFault
  | object _ members close => looseFaultOfMembers members <|> close.looseObjectFault
  | brokenWord _ _ f => some f
  | fault _ f => some f

/-- The first fault of items that are passed over. -/
def looseFaultOfItems : List Tree → Option Fault
  | [] => none
  | t :: ts => t.looseFault <|> looseFaultOfItems ts

/-- The first fault of members that are passed over. -/
def looseFaultOfMembers : List (Member Tree) → Option Fault
  | [] => none
  | ⟨key, _, value, _⟩ :: ms => key.loose <|> value.looseFault <|> looseFaultOfMembers ms

end

end Tree

end ProtoScribe.Json

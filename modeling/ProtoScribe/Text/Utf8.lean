/-!
# UTF-8

Bytes are read one at a time. Between characters a byte opens a sequence; within one, a byte
continues it if it lies in the range that the bytes before it allow. The narrow ranges after
`E0`, `ED`, `F0` and `F4` keep out overlong forms, surrogates and values beyond the last code
point, so bytes are refused at the first one that no well-formed text could hold there.

A refusal names the index of the sequence's first byte, which is the length of the longest
well-formed start, and says whether a byte was wrong or the bytes ended too early.
-/

namespace ProtoScribe.Utf8

/-- Why bytes are not UTF-8. -/
inductive Fault where
  /-- The `length` bytes from `index` on begin no character, whatever follows. -/
  | invalid (index length : Nat)
  /-- The bytes end inside the character that begins at `index`. -/
  | incomplete (index : Nat)
  deriving DecidableEq, Repr, Inhabited

/-- The fault by its place in the bytes. -/
def Fault.message : Fault → String
  | .invalid index length =>
    "invalid utf-8 sequence of " ++ toString length ++ " bytes from index " ++ toString index
  | .incomplete index => "incomplete utf-8 byte sequence from index " ++ toString index

/-- A character of which `seen` bytes are read and `owed` are to come, the next of them between
`low` and `high`; `value` holds the bits read so far. -/
structure Pending where
  seen : Nat := 1
  owed : Nat
  low : UInt8 := 0x80
  high : UInt8 := 0xBF
  value : Nat
  deriving DecidableEq, Repr, Inhabited

/-- What the first byte of a character promises; some bytes begin no character. -/
def lead (b : UInt8) : Option Pending :=
  if b ≤ 0x7F then some { owed := 0, value := b.toNat }
  else if b < 0xC2 then none
  else if b ≤ 0xDF then some { owed := 1, value := b.toNat - 0xC0 }
  else if b = 0xE0 then some { owed := 2, low := 0xA0, value := 0 }
  else if b = 0xED then some { owed := 2, high := 0x9F, value := 0x0D }
  else if b ≤ 0xEF then some { owed := 2, value := b.toNat - 0xE0 }
  else if b = 0xF0 then some { owed := 3, low := 0x90, value := 0 }
  else if b ≤ 0xF3 then some { owed := 3, value := b.toNat - 0xF0 }
  else if b = 0xF4 then some { owed := 3, high := 0x8F, value := 4 }
  else none

/-- Reads bytes from `index` on, with the characters before them in reverse. -/
def decodeFrom (index : Nat) (before : List Char) :
    Option Pending → List UInt8 → Except Fault (List Char)
  | none, [] => .ok before.reverse
  | some _, [] => .error (.incomplete index)
  | none, b :: bs =>
    match lead b with
    | none => .error (.invalid index 1)
    | some p =>
      if p.owed = 0 then decodeFrom (index + 1) (Char.ofNat p.value :: before) none bs
      else decodeFrom index before (some p) bs
  | some p, b :: bs =>
    if p.low ≤ b ∧ b ≤ p.high then
      let value := p.value * 64 + (b.toNat - 0x80)
      if p.owed = 1 then decodeFrom (index + p.seen + 1) (Char.ofNat value :: before) none bs
      else decodeFrom index before (some { seen := p.seen + 1, owed := p.owed - 1, value }) bs
    else .error (.invalid index p.seen)

/-- The text that bytes spell. -/
def decode (bytes : List UInt8) : Except Fault String :=
  (decodeFrom 0 [] none bytes).map String.ofList

/-- The bytes that spell a text. -/
def encode (s : String) : List UInt8 := s.toList.flatMap String.utf8EncodeChar

end ProtoScribe.Utf8

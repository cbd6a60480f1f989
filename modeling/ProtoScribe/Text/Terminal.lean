/-!
# Text for a terminal

A terminal obeys some control characters instead of showing them, so text that comes from outside
could move its cursor or change its colours. Such characters are written by their number.
-/

namespace ProtoScribe.Text

/-- A character of seven bits that a terminal obeys: bell, backspace, form feed, escape, delete. -/
def isTerminalControl (c : Char) : Bool :=
  c = '\x07' || c = '\x08' || c = '\x0c' || c = '\x1b' || c = '\x7f'

/-- The controls of eight bits, each short for an escape and a letter. -/
def isWideControl (c : Char) : Bool := 0x80 ≤ c.toNat && c.toNat ≤ 0x9f

/-- A character as a terminal may have it. -/
def terminalChar (c : Char) : List Char :=
  if isTerminalControl c then
    ['\\', 'x', Nat.digitChar (c.toNat / 16), Nat.digitChar (c.toNat % 16)]
  else if isWideControl c then "\\u\x7b".toList ++ Nat.toDigits 16 c.toNat ++ ['}']
  else [c]

/-- A text as a terminal may have it. -/
def forTerminal (s : String) : String := String.ofList (s.toList.flatMap terminalChar)

end ProtoScribe.Text

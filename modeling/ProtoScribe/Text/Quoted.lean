import ProtoScribe.Text.Unprintable

/-!
# Quoted text

A text between double quotes on one line, as messages show the strings that they complain about.
Quotes and backslashes get a backslash before them, four controls have a letter, and every other
character without a picture of its own is written by its number in braces.
-/

namespace ProtoScribe.Text

/-- A character inside a quoted text. -/
def quotedChar (c : Char) : List Char :=
  if c = '\x00' then ['\\', '0']
  else if c = '\t' then ['\\', 't']
  else if c = '\r' then ['\\', 'r']
  else if c = '\n' then ['\\', 'n']
  else if c = '\\' then ['\\', '\\']
  else if c = '"' then ['\\', '"']
  else if isUnprintable c then "\\u\x7b".toList ++ Nat.toDigits 16 c.toNat ++ ['}']
  else [c]

/-- A text as messages quote it. -/
def quoted (s : String) : String :=
  "\"" ++ String.ofList (s.toList.flatMap quotedChar) ++ "\""

end ProtoScribe.Text

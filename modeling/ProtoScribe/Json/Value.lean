/-!
# JSON values

The values that schemas are written as, and their compact text, which has nothing between its
tokens. In a string only quotes, backslashes and control characters are escaped, and five of the
controls have a letter.
-/

namespace ProtoScribe.Json

/-- A JSON value without null and without fractions. -/
inductive Value where
  | flag (value : Bool)
  | integer (value : Int)
  | string (value : String)
  | array (items : List Value)
  | object (members : List (String × Value))
  deriving Repr, Inhabited

namespace Value

/-! ## Text -/

/-- A character inside a string. -/
def escapeChar (c : Char) : List Char :=
  if c = '"' then ['\\', '"']
  else if c = '\\' then ['\\', '\\']
  else if c = '\x08' then ['\\', 'b']
  else if c = '\x0c' then ['\\', 'f']
  else if c = '\n' then ['\\', 'n']
  else if c = '\r' then ['\\', 'r']
  else if c = '\t' then ['\\', 't']
  else if c.toNat < 0x20 then
    ['\\', 'u', '0', '0', Nat.digitChar (c.toNat / 16), Nat.digitChar (c.toNat % 16)]
  else [c]

/-- A string between quotes. -/
def renderString (s : String) : List Char := '"' :: s.toList.flatMap escapeChar ++ ['"']

mutual

/-- The compact text of a value. -/
def render : Value → List Char
  | flag b => (if b then "true" else "false").toList
  | integer i => (toString i).toList
  | string s => renderString s
  | array items => '[' :: renderItems items ++ [']']
  | object members => '{' :: renderMembers members ++ ['}']

/-- Values with commas between them. -/
def renderItems : List Value → List Char
  | [] => []
  | [v] => render v
  | v :: vs => render v ++ ',' :: renderItems vs

/-- Keys and values with commas between the pairs. -/
def renderMembers : List (String × Value) → List Char
  | [] => []
  | [(k, v)] => renderString k ++ ':' :: render v
  | (k, v) :: ms => renderString k ++ ':' :: render v ++ ',' :: renderMembers ms

end

end Value

end ProtoScribe.Json

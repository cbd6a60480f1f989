import ProtoScribe.Json.Literal

/-!
# JSON strings

A string runs to the next quote that no backslash escapes. An escape `\u` names a UTF-16 unit by
four hexadecimal digits. Only the strict reading asks that units form characters: a high surrogate
must be followed at once by the escape of a low one, and a low one must not stand alone.
-/

namespace ProtoScribe.Json.StringLiteral

/-- The value of a hexadecimal digit. -/
def hexDigit? (c : Char) : Option Nat :=
  if c.isDigit then some (c.toNat - '0'.toNat)
  else if 'a' ≤ c ∧ c ≤ 'f' then some (c.toNat - 'a'.toNat + 10)
  else if 'A' ≤ c ∧ c ≤ 'F' then some (c.toNat - 'A'.toNat + 10)
  else none

/-- The number that four hexadecimal digits spell. -/
def hex? : List Char → Option Nat
  | [a, b, c, d] => do
    return ((← hexDigit? a) * 16 + (← hexDigit? b)) * 256
      + ((← hexDigit? c) * 16 + (← hexDigit? d))
  | _ => none

/-- The UTF-16 unit at the head of a text that follows `\u`. -/
def unit? (cs : List Char) : Option Nat := hex? (cs.take 4)

/-- Whether a unit is the first half of a character. -/
def isHigh (unit : Nat) : Bool := 0xD800 ≤ unit ∧ unit < 0xDC00

/-- Whether a unit is the second half of a character. -/
def isLow (unit : Nat) : Bool := 0xDC00 ≤ unit ∧ unit < 0xE000

/-- The character of two surrogates. -/
def pair (high low : Nat) : Char := Char.ofNat (0x10000 + (high - 0xD800) * 1024 + (low - 0xDC00))

/-- The character that a letter after a backslash stands for. -/
def escaped? : Char → Option Char
  | '"' => some '"'
  | '\\' => some '\\'
  | '/' => some '/'
  | 'b' => some '\x08'
  | 'f' => some '\x0c'
  | 'n' => some '\n'
  | 'r' => some '\r'
  | 't' => some '\t'
  | _ => none

/-- What follows a high surrogate in a string that is read strictly. -/
inductive AfterHigh where
  /-- The low surrogate that completes the character. -/
  | low (unit : Nat)
  /-- No high surrogate can stand here. -/
  | fault (f : Fault)
  /-- An escape or an end that is a fault of its own. -/
  | broken
  deriving Repr

/-- Looks for the low surrogate that must begin a text at `offset`. -/
def afterHigh (offset : Nat) : List Char → AfterHigh
  | '\\' :: 'u' :: cs =>
    match unit? cs with
    | some unit => if isLow unit then .low unit else .fault ⟨.loneSurrogate, offset + 6⟩
    | none => .broken
  | ['\\'] => .broken
  | '\\' :: _ => .fault ⟨.surrogateExpected, offset + 2⟩
  | [] => .broken
  | _ => .fault ⟨.surrogateExpected, offset + 1⟩

/-- The string so far: its characters in reverse, and the first fault that only the strict reading
finds. -/
structure Partial where
  before : List Char := []
  fault : Option Fault := none
  deriving Repr, Inhabited

/-- The string with one more character. -/
def Partial.push (p : Partial) (c : Char) : Partial := { p with before := c :: p.before }

/-- The string with a fault, of which only the first one counts. -/
def Partial.blame (p : Partial) (f : Fault) : Partial := { p with fault := p.fault <|> some f }

/-- The literal that ends well at `stop`. -/
def Partial.finish (p : Partial) (stop : Nat) : Literal String where
  strict := match p.fault with
    | some f => .error f
    | none => .ok (String.ofList p.before.reverse)
  loose := none
  stop := stop

/-- The literal that cannot go on at `loose`, where the strict reading shows `strict`. -/
def Partial.break (p : Partial) (strict loose : Fault) : Literal String :=
  ⟨.error (p.fault.getD strict), some loose, loose.offset⟩

/-- Whether at least four bytes are left between `offset` and `length`. -/
def fourLeft (length offset : Nat) : Bool := offset + 4 ≤ length

/-- Reads on from `offset` in a text of `length` bytes. -/
def scanFrom (length offset : Nat) (p : Partial) (cs : List Char) : Literal String × List Char :=
  match cs with
  | [] => (p.break ⟨.endInString, length⟩ ⟨.endInString, length⟩, [])
  | '"' :: rest => (p.finish (offset + 1), rest)
  | '\\' :: 'u' :: rest =>
    match unit? rest with
    | none =>
      let f : Fault :=
        if fourLeft length (offset + 2) then ⟨.invalidEscape, offset + 6⟩ else ⟨.endInString, length⟩
      (p.break f f, rest)
    | some unit =>
      if isLow unit then
        scanFrom length (offset + 6) (p.blame ⟨.loneSurrogate, offset + 6⟩) (rest.drop 4)
      else if isHigh unit then
        match afterHigh (offset + 6) (rest.drop 4) with
        | .low low => scanFrom length (offset + 12) (p.push (pair unit low)) (rest.drop 10)
        | .fault f => scanFrom length (offset + 6) (p.blame f) (rest.drop 4)
        | .broken => scanFrom length (offset + 6) p (rest.drop 4)
      else scanFrom length (offset + 6) (p.push (Char.ofNat unit)) (rest.drop 4)
  | ['\\'] => (p.break ⟨.endInString, length⟩ ⟨.endInString, length⟩, [])
  | '\\' :: c :: rest =>
    match escaped? c with
    | some e => scanFrom length (offset + 2) (p.push e) rest
    | none => (p.break ⟨.invalidEscape, offset + 2⟩ ⟨.invalidEscape, offset + 2⟩, rest)
  | c :: rest =>
    if c.toNat < 0x20 then
      (p.break ⟨.controlCharacter, offset + 1⟩ ⟨.controlCharacter, offset⟩, rest)
    else scanFrom length (offset + c.utf8Size) (p.push c) rest
termination_by cs.length
decreasing_by all_goals (simp only [List.length_drop, List.length_cons]; omega)

/-- Reads the string whose opening quote stands before `offset`. -/
def scan (length offset : Nat) (cs : List Char) : Literal String × List Char :=
  scanFrom length offset {} cs

/-- A string leaves no more than it was given. -/
theorem length_scanFrom (length offset : Nat) (p : Partial) (cs : List Char) :
    (scanFrom length offset p cs).2.length ≤ cs.length := by
  fun_induction scanFrom length offset p cs <;> simp_all <;> omega

end ProtoScribe.Json.StringLiteral

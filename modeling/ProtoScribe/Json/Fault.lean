import ProtoScribe.Document.Complaint

/-!
# Why a JSON text is refused

A fault is a cause and the byte offset at which it shows. The error that is reported has the line
of that offset, and the number of bytes before it in the line.
-/

namespace ProtoScribe.Json

/-- What is wrong. -/
inductive Cause where
  | endInValue
  | endInArray
  | endInObject
  | endInString
  | colonExpected
  | arraySeparatorExpected
  | objectSeparatorExpected
  | wordExpected
  | valueExpected
  | keyExpected
  | trailingComma
  | trailingCharacters
  | invalidNumber
  | numberOutOfRange
  | controlCharacter
  | invalidEscape
  | loneSurrogate
  | surrogateExpected
  | nestedTooDeep
  | complaint (complaint : Document.Complaint)
  deriving DecidableEq, Repr, Inhabited

/-- A cause and the number of bytes up to where it shows. -/
structure Fault where
  cause : Cause
  offset : Nat
  deriving DecidableEq, Repr, Inhabited

/-- A missing value is called by its literal, and large and small numbers have an exponent. -/
def spelling : Document.Spelling := ⟨"null", .brief⟩

/-- The cause without its place. -/
def Cause.message : Cause → String
  | .endInValue => "EOF while parsing a value"
  | .endInArray => "EOF while parsing a list"
  | .endInObject => "EOF while parsing an object"
  | .endInString => "EOF while parsing a string"
  | .colonExpected => "expected `:`"
  | .arraySeparatorExpected => "expected `,` or `]`"
  | .objectSeparatorExpected => "expected `,` or `\x7d`"
  | .wordExpected => "expected ident"
  | .valueExpected => "expected value"
  | .keyExpected => "key must be a string"
  | .trailingComma => "trailing comma"
  | .trailingCharacters => "trailing characters"
  | .invalidNumber => "invalid number"
  | .numberOutOfRange => "number out of range"
  | .controlCharacter => "control character (\\u0000-\\u001F) found while parsing a string"
  | .invalidEscape => "invalid escape"
  | .loneSurrogate => "lone leading surrogate in hex escape"
  | .surrogateExpected => "unexpected end of hex escape"
  | .nestedTooDeep => "recursion limit exceeded"
  | .complaint c => c.message spelling

/-- The line of an offset and the bytes before it in that line, given those of the first character. -/
def positionFrom (line column : Nat) : (offset : Nat) → List Char → Nat × Nat
  | _, [] => (line, column)
  | offset, c :: cs =>
    if offset = 0 then (line, column)
    else if offset < c.utf8Size then (line, column + offset)
    else if c = '\n' then positionFrom (line + 1) 0 (offset - 1) cs
    else positionFrom line (column + c.utf8Size) (offset - c.utf8Size) cs

/-- Why a text is refused, and where. -/
structure Error where
  cause : Cause
  line : Nat
  column : Nat
  deriving DecidableEq, Repr, Inhabited

/-- The cause with its place. -/
def Error.message (e : Error) : String :=
  e.cause.message ++ " at line " ++ toString e.line ++ " column " ++ toString e.column

/-- A fault in the given text, by line and column. -/
def Fault.locate (text : String) (f : Fault) : Error :=
  let (line, column) := positionFrom 1 0 f.offset text.toList
  ⟨f.cause, line, column⟩

end ProtoScribe.Json

import ProtoScribe.Json.StringLiteral
import ProtoScribe.Yaml.Scalar.Gap

/-!
# Quoted scalars

Between single quotes only the quote itself needs care: it is written twice. Between double quotes
a backslash begins an escape; one at the end of a line takes the line break away. No line between
quotes may look like the bound of a document.
-/

namespace ProtoScribe.Yaml.Quoted

/-- The two kinds of quotes. -/
inductive Quote where
  | single
  | double
  deriving DecidableEq, Repr, Inhabited

/-- The character of a quote. -/
def Quote.char : Quote → Char
  | .single => '\''
  | .double => '"'

/-- The character that a letter after a backslash stands for. -/
def escaped? : Char → Option Char
  | '0' => some '\x00'
  | 'a' => some '\x07'
  | 'b' => some '\x08'
  | 't' | '\t' => some '\t'
  | 'n' => some '\n'
  | 'v' => some '\x0b'
  | 'f' => some '\x0c'
  | 'r' => some '\r'
  | 'e' => some '\x1b'
  | ' ' => some ' '
  | '"' => some '"'
  | '/' => some '/'
  | '\\' => some '\\'
  | 'N' => some '\u0085'
  | '_' => some '\u00a0'
  | 'L' => some '\u2028'
  | 'P' => some '\u2029'
  | _ => none

/-- How many hexadecimal digits a letter after a backslash asks for. -/
def codeLength? : Char → Option Nat
  | 'x' => some 2
  | 'u' => some 4
  | 'U' => some 8
  | _ => none

/-- The number that hexadecimal digits spell. -/
def code? (value : Nat) : List Glyph → Option Nat
  | [] => some value
  | g :: gs => do code? (value * 16 + (← Json.StringLiteral.hexDigit? g.char)) gs

/-- The character of the code that `length` digits at the head of a text spell. -/
def codeChar? (length : Nat) (gs : List Glyph) : Option Char := do
  let digits := gs.take length
  if digits.length < length then none
  else
    let n ← code? 0 digits
    if n.isValidChar then some (Char.ofNat n) else none

/-- The scalar so far, its characters in reverse. -/
structure Partial where
  before : List Char := []
  gap : Gap := .none
  count : Nat := 0
  deriving Repr, Inhabited

/-- The scalar with its last gap filled and one more character, which takes `count` glyphs. -/
def Partial.push (p : Partial) (c : Char) (count : Nat) : Partial :=
  { before := c :: (p.gap.folded ++ p.before), gap := .none, count := p.count + count }

/-- The scalar whose closing quote comes next. -/
def Partial.finish (p : Partial) : Taken String :=
  ⟨String.ofList (p.gap.folded ++ p.before).reverse, p.count + 1⟩

/-- Reads on; a scalar that does not close is an error. -/
def scanFrom (quote : Quote) (p : Partial) (gs : List Glyph) : Option (Taken String) :=
  match gs with
  | [] => none
  | g :: rest =>
    if g.isBlank || g.isBreak then
      scanFrom quote { p with gap := p.gap.push g, count := p.count + 1 } rest
    else if atBoundary gs then none
    else if g.char = quote.char then
      if quote = .single && startsWith '\'' rest then scanFrom quote (p.push '\'' 2) (rest.drop 1)
      else some p.finish
    else if quote = .double && g.char = '\\' then
      match rest with
      | [] => none
      | e :: rest =>
        if e.isBreak then
          scanFrom quote
            { before := p.gap.folded ++ p.before, gap := .breaks Option.none [], count := p.count + 2 }
            rest
        else
          match escaped? e.char, codeLength? e.char with
          | some c, _ => scanFrom quote (p.push c 2) rest
          | _, some length =>
            match codeChar? length rest with
            | some c => scanFrom quote (p.push c (2 + length)) (rest.drop length)
            | none => none
          | _, _ => none
    else scanFrom quote (p.push g.char 1) rest
termination_by gs.length
decreasing_by all_goals (simp only [List.length_drop, List.length_cons]; omega)

/-- The rest of a scalar whose opening quote has been taken. -/
def scan (quote : Quote) (gs : List Glyph) : Option (Taken String) := scanFrom quote {} gs

end ProtoScribe.Yaml.Quoted

import ProtoScribe.Yaml.Scalar.Block
import ProtoScribe.Yaml.Scalar.Plain
import ProtoScribe.Yaml.Scalar.Quoted
import ProtoScribe.Yaml.Token

/-!
# From text to tokens

A mapping without brackets shows only at the colon after its first key. So every token that may
start a key is remembered, and at the colon the tokens that announce the key, and the mapping if it
is a new one, are put before it. A key has to end on its line, within `keyLength` bytes, and one
that stands where the mapping's keys stand has to turn out to be a key.

A fault shows as soon as a token is asked for that might still become a key. So the tokens before
a fault are those before the first such token.
-/

namespace ProtoScribe.Yaml

/-- A token that may turn out to start a key. -/
structure KeyCandidate where
  /-- How many tokens come before it. -/
  position : Nat
  /-- Whether it is an error if it is no key. -/
  required : Bool
  mark : Mark
  deriving DecidableEq, Repr, Inhabited

/-- What has been read, and what matters of it for the next token. -/
structure Lexer where
  /-- The tokens so far, in reverse. -/
  before : List Token := []
  /-- The column of the innermost block, if any is open. -/
  indent : Option Nat := none
  /-- The columns of the blocks around it. -/
  outer : List (Option Nat) := []
  /-- The candidate outside of brackets. -/
  candidate : Option KeyCandidate := none
  /-- The candidates inside of each pair of brackets, innermost first. -/
  inner : List (Option KeyCandidate) := []
  /-- Whether a key may start here. -/
  keyAllowed : Bool := true
  deriving Repr, Inhabited

namespace Lexer

/-- The number of bytes that a key may take. -/
def keyLength : Nat := 1024

/-- Whether a bracket is open. -/
def inFlow (s : Lexer) : Bool := !s.inner.isEmpty

/-- The place of a text's first glyph; `last` is the place after the whole text. -/
def place (last : Mark) : List Glyph → Mark
  | [] => last
  | g :: _ => g.mark

/-! ## Tokens -/

/-- Adds a token at the end. -/
def push (s : Lexer) (kind : TokenKind) (start stop : Mark) : Lexer :=
  { s with before := ⟨kind, start, stop⟩ :: s.before }

/-- Puts a token that takes no characters before all but the first `position` tokens. -/
def insert (s : Lexer) (position : Nat) (kind : TokenKind) (mark : Mark) : Lexer :=
  let later := s.before.length - position
  { s with before := s.before.take later ++ ⟨kind, mark, mark⟩ :: s.before.drop later }

/-! ## Keys -/

/-- The candidate of the innermost context. -/
def current (s : Lexer) : Option KeyCandidate :=
  match s.inner with
  | [] => s.candidate
  | c :: _ => c

/-- Replaces the candidate of the innermost context. -/
def setCurrent (s : Lexer) (c : Option KeyCandidate) : Lexer :=
  match s.inner with
  | [] => { s with candidate := c }
  | _ :: outer => { s with inner := c :: outer }

/-- Gives up the current candidate. -/
def dropCandidate (s : Lexer) : Option Lexer :=
  if s.current.any (·.required) then none else some (s.setCurrent none)

/-- Remembers that the next token, at `mark`, may start a key. -/
def addCandidate (s : Lexer) (mark : Mark) : Option Lexer :=
  if s.keyAllowed then do
    let required := !s.inFlow && s.indent = some mark.column
    return (← s.dropCandidate).setCurrent (some ⟨s.before.length, required, mark⟩)
  else some s

/-- Whether a candidate cannot be a key any more once the text has come to `mark`. -/
def KeyCandidate.isStale (mark : Mark) (c : KeyCandidate) : Bool :=
  c.mark.line < mark.line || c.mark.index + keyLength < mark.index

/-- Gives up the candidates that are too far away. -/
def dropStale (s : Lexer) (mark : Mark) : Option Lexer :=
  let candidates := s.candidate :: s.inner
  if candidates.any (fun c => c.any fun c => KeyCandidate.isStale mark c && c.required) then none
  else
    let fresh (c : Option KeyCandidate) := c.filter (!KeyCandidate.isStale mark ·)
    some { s with candidate := fresh s.candidate, inner := s.inner.map fresh }

/-- How many tokens can be read without knowing what comes next. -/
def settled (s : Lexer) : Nat :=
  ((s.candidate :: s.inner).filterMap fun c => c.map (·.position)).foldl min s.before.length

/-! ## Blocks -/

/-- Whether a column lies inside the innermost block. -/
def isDeeper (indent : Option Nat) (column : Nat) : Bool := indent.all (· < column)

/-- Opens a block at a column inside the innermost one; `position` tells where its token goes. -/
def openBlock (s : Lexer) (kind : TokenKind) (position : Nat) (mark : Mark) : Lexer :=
  if !s.inFlow && isDeeper s.indent mark.column then
    { s.insert position kind mark with indent := some mark.column, outer := s.indent :: s.outer }
  else s

/-- The blocks that stay open at a column, and how many do not. -/
def unrollBlocks (column : Option Nat) (indent : Option Nat) :
    List (Option Nat) → Option Nat × List (Option Nat) × Nat
  | [] => (indent, [], 0)
  | next :: outer =>
    if indent.any (fun i => column.all (· < i)) then
      let (indent, outer, closed) := unrollBlocks column next outer
      (indent, outer, closed + 1)
    else (indent, next :: outer, 0)

/-- Closes the blocks that lie deeper than a column, or all blocks. -/
def closeBlocks (s : Lexer) (column : Option Nat) (mark : Mark) : Lexer :=
  if s.inFlow then s
  else
    let (indent, outer, closed) := unrollBlocks column s.indent s.outer
    { s with
      before := List.replicate closed ⟨.blockEnd, mark, mark⟩ ++ s.before
      indent, outer }

/-! ## One token -/

/-- What a token leaves, and how many glyphs it takes. -/
abbrev Result : Type := Option (Taken Lexer)

/-- A token of `count` indicators at `mark`. -/
def single (s : Lexer) (kind : TokenKind) (mark : Mark) (count : Nat) : Result :=
  some ⟨s.push kind mark (mark.skip count), count⟩

/-- The bound of a document, which closes all blocks. -/
def boundary (s : Lexer) (kind : TokenKind) (mark : Mark) : Result := do
  let s ← (s.closeBlocks none mark).dropCandidate
  single { s with keyAllowed := false } kind mark 3

/-- A directive with the rest of its line. -/
def directive (s : Lexer) (mark : Mark) (gs : List Glyph) : Result := do
  let s ← (s.closeBlocks none mark).dropCandidate
  let found ← Yaml.directive (gs.drop 1)
  let rest ← lineRest (gs.drop (1 + found.count))
  return ⟨{ s with keyAllowed := false }.push (.directive found.value) mark mark, 1 + found.count + rest⟩

/-- An opening bracket, with which a key may start and after which one may. -/
def openFlow (s : Lexer) (kind : TokenKind) (mark : Mark) : Result := do
  let s ← s.addCandidate mark
  single { s with inner := none :: s.inner, keyAllowed := true } kind mark 1

/-- A closing bracket. One that nothing opened is left to whoever reads the tokens. -/
def closeFlow (s : Lexer) (kind : TokenKind) (mark : Mark) : Result := do
  let s ← s.dropCandidate
  single { s with inner := s.inner.tail, keyAllowed := false } kind mark 1

/-- A comma between brackets, after which a key may start. -/
def flowEntry (s : Lexer) (mark : Mark) : Result := do
  let s ← s.dropCandidate
  single { s with keyAllowed := true } .flowEntry mark 1

/-- An indicator that opens a block of the given kind if it is the first of its column. -/
def opening (s : Lexer) (block : TokenKind) (mark : Mark) : Option Lexer :=
  if s.inFlow then some s
  else if s.keyAllowed then some (s.openBlock block s.before.length mark)
  else none

/-- A dash, which opens a sequence if it is the first of its column. -/
def blockEntry (s : Lexer) (mark : Mark) : Result := do
  let s ← (← s.opening .blockSequence mark).dropCandidate
  single { s with keyAllowed := true } .blockEntry mark 1

/-- A question mark before a key, which opens a mapping if it is the first of its column. -/
def key (s : Lexer) (mark : Mark) : Result := do
  let s ← (← s.opening .blockMapping mark).dropCandidate
  single { s with keyAllowed := !s.inFlow } .key mark 1

/-- The colon after a key. If the key is a candidate, its token is put before it. -/
def value (s : Lexer) (mark : Mark) : Result :=
  match s.current with
  | some c =>
    let s := (s.insert c.position .key c.mark).openBlock .blockMapping c.position c.mark
    single { s.setCurrent none with keyAllowed := false } .value mark 1
  | none => do
    let s ← s.opening .blockMapping mark
    single { s with keyAllowed := !s.inFlow } .value mark 1

/-- A token that may start a key, found after `skipped` characters. -/
def content {α : Type} (s : Lexer) (mark : Mark) (skipped : Nat) (found : Option (Taken α))
    (kind : α → TokenKind) : Result := do
  let s ← s.addCandidate mark
  let found ← found
  return ⟨{ s with keyAllowed := false }.push (kind found.value) mark mark, skipped + found.count⟩

/-- A plain scalar. Where it ends on a later line a key may start after it. -/
def plain (s : Lexer) (mark : Mark) (gs : List Glyph) : Result := do
  let s ← s.addCandidate mark
  let found ← Plain.scan s.inFlow (s.indent.elim 0 (· + 1)) gs
  return ⟨{ s with keyAllowed := found.value.broken }.push (.scalar .plain found.value.text) mark mark,
    found.count⟩

/-- A block scalar, which cannot be a key. -/
def block (s : Lexer) (mark : Mark) (literal : Bool) (gs : List Glyph) : Result := do
  let s ← s.dropCandidate
  let found ← Block.scan literal s.indent (gs.drop 1)
  let style : ScalarStyle := if literal then .literal else .folded
  return ⟨{ s with keyAllowed := true }.push (.scalar style found.value) mark mark, 1 + found.count⟩

/-- The characters that start no plain scalar. -/
def isIndicator (c : Char) : Bool := "-?:,[]\x7b\x7d#&*!|>'\"%@\x60".toList.contains c

/-- Whether a plain scalar starts here. Three indicators may start one unless a gap follows. -/
def startsPlain (flow : Bool) (g : Glyph) (rest : List Glyph) : Bool :=
  (!g.isBlank && !isIndicator g.char)
    || (g.char = '-' && !rest.head?.any Glyph.isBlank)
    || (!flow && (g.char = '?' || g.char = ':') && !atGap rest)

/-- The token that starts with `g`. -/
def token (s : Lexer) (g : Glyph) (rest : List Glyph) : Result :=
  let gs := g :: rest
  let mark := g.mark
  let is (c : Char) : Bool := g.char = c
  if mark.column = 0 && is '%' then s.directive mark gs
  else if isBoundary '-' gs then s.boundary .documentStart mark
  else if isBoundary '.' gs then s.boundary .documentEnd mark
  else if is '[' then s.openFlow .flowSequence mark
  else if is '{' then s.openFlow .flowMapping mark
  else if is ']' then s.closeFlow .flowSequenceEnd mark
  else if is '}' then s.closeFlow .flowMappingEnd mark
  else if is ',' then s.flowEntry mark
  else if is '-' && atGap rest then s.blockEntry mark
  else if is '?' && (s.inFlow || atGap rest) then s.key mark
  else if is ':' && (s.inFlow || atGap rest) then s.value mark
  else if is '*' then s.content mark 1 (anchorName rest) .alias
  else if is '&' then s.content mark 1 (anchorName rest) .anchor
  else if is '!' then s.content mark 0 (tag s.inFlow gs) .tag
  else if is '|' && !s.inFlow then s.block mark true gs
  else if is '>' && !s.inFlow then s.block mark false gs
  else if is '\'' then s.content mark 1 (Quoted.scan .single rest) (.scalar .quoted)
  else if is '"' then s.content mark 1 (Quoted.scan .double rest) (.scalar .quoted)
  else if startsPlain s.inFlow g rest then s.plain mark gs
  else none

/-! ## All tokens -/

/-- Skips blanks, comments, line breaks and the mark that a line may start with; after a line break
outside of brackets a key may start. Tabs count as blanks only where no key may start. -/
def skipGap (s : Lexer) (comment : Bool) : List Glyph → Lexer × List Glyph
  | [] => (s, [])
  | g :: gs =>
    if g.isBreak then skipGap { s with keyAllowed := s.keyAllowed || !s.inFlow } false gs
    else if comment then skipGap s true gs
    else if g.char = ' ' then skipGap s false gs
    else if g.char = '\t' && (s.inFlow || !s.keyAllowed) then skipGap s false gs
    else if g.char = '#' then skipGap s true gs
    else if g.char = byteOrderMark && g.mark.column = 0 then skipGap s false gs
    else (s, g :: gs)

/-- Skipping takes nothing but from the front. -/
theorem length_skipGap (s : Lexer) (comment : Bool) (gs : List Glyph) :
    (s.skipGap comment gs).2.length ≤ gs.length := by
  fun_induction skipGap s comment gs <;> simp_all <;> omega

/-- The tokens before a fault. -/
def fault (s : Lexer) : TokenStream := ⟨(s.before.drop (s.before.length - s.settled)).reverse, true⟩

/-- The tokens of a whole text that ends at `last`. Blocks that lie deeper end there, and the others
on a new line. -/
def finish (s : Lexer) (last : Mark) : Option (List Token) := do
  let s := s.closeBlocks (some last.column) last
  let last := if last.column = 0 then last else { last with line := last.line + 1, column := 0 }
  let s ← (s.closeBlocks none last).dropCandidate
  return (s.push .streamEnd last last).before.reverse

/-- Reads on in a text that ends at `last`. -/
def run (last : Mark) (s : Lexer) (gs : List Glyph) : TokenStream :=
  match s.dropStale (place last gs) with
  | none => s.fault
  | some s =>
    match _h : s.skipGap false gs with
    | (next, []) => ((next.dropStale last).bind (·.finish last)).elim s.fault (⟨·, false⟩)
    | (next, g :: rest) =>
      match (next.dropStale g.mark).bind fun next =>
          (next.closeBlocks (some g.mark.column) g.mark).token g rest with
      | none => s.fault
      | some ⟨next, count⟩ => run last next (rest.drop (count - 1))
termination_by gs.length
decreasing_by
  have := length_skipGap s false gs
  simp_all only [List.length_cons, List.length_drop]
  omega

end Lexer

/-- The tokens of a text that ends at `last`. -/
def TokenStream.ofGlyphs (gs : List Glyph) (last : Mark) : TokenStream := Lexer.run last {} gs

end ProtoScribe.Yaml

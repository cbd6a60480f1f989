import ProtoScribe.Yaml.Glyph

/-!
# Block scalars

After a header come the lines of the scalar, each indented by the same number of columns at least.
A header may give that number, relative to the block around it; otherwise the first line that is
not blank shows it. A literal scalar keeps its line breaks. In a folded one a single break between
lines that do not start with a blank stands for a space.
-/

namespace ProtoScribe.Yaml.Block

/-- What becomes of the line breaks at the end. -/
inductive Chomping where
  | strip
  | clip
  | keep
  deriving DecidableEq, Repr, Inhabited

/-- The marks after the opening character. -/
structure Header where
  chomping : Chomping := .clip
  indent : Option Nat := none
  deriving Repr, Inhabited

/-- The mark that a character is: one for chomping, or a digit of the indentation. -/
inductive HeaderMark where
  | chomping (c : Chomping)
  | digit (n : Nat)

/-- The mark at the head of a text. -/
def headerMark? (gs : List Glyph) : Option HeaderMark :=
  match gs with
  | [] => none
  | g :: _ =>
    if g.char = '+' then some (.chomping .keep)
    else if g.char = '-' then some (.chomping .strip)
    else if g.char.isDigit then some (.digit (g.char.toNat - '0'.toNat))
    else none

/-- The marks at the head of a text, at most one of each kind; the digit zero is an error. -/
def header (gs : List Glyph) : Option (Taken Header) :=
  match headerMark? gs with
  | none => some ⟨{}, 0⟩
  | some (.chomping c) =>
    match headerMark? (gs.drop 1) with
    | some (.digit n) => if n = 0 then none else some ⟨⟨c, some n⟩, 2⟩
    | _ => some ⟨⟨c, none⟩, 1⟩
  | some (.digit n) =>
    if n = 0 then none
    else
      match headerMark? (gs.drop 1) with
      | some (.chomping c) => some ⟨⟨c, some n⟩, 2⟩
      | _ => some ⟨⟨.clip, some n⟩, 1⟩

/-- The widest indentation among the blank lines at the head of a text and the line after them.
A tab among them is an error. -/
def widest (columns : Nat) : List Glyph → Option Nat
  | [] => some columns
  | g :: gs =>
    if g.char = ' ' then widest (max columns (g.mark.column + 1)) gs
    else if g.char = '\t' then none
    else if g.isBreak then widest columns gs
    else some columns

/-- The scalar so far, its characters in reverse. -/
structure Partial where
  before : List Char := []
  /-- The break after the last line. -/
  lineBreak : Option Char := none
  /-- The breaks of the blank lines since then, in reverse. -/
  blankLines : List Char := []
  /-- Whether the last line starts with a blank. -/
  wasBlank : Bool := false
  /-- Whether the scalar stands inside a line, past its indentation. -/
  inLine : Bool := false
  count : Nat := 0
  deriving Repr, Inhabited

/-- The scalar with the breaks before a new line that starts with `g`. -/
def Partial.openLine (p : Partial) (literal : Bool) (g : Glyph) : Partial :=
  let joined :=
    if !literal && p.lineBreak = some '\n' && !p.wasBlank && !g.isBlank then
      if p.blankLines.isEmpty then [' '] else p.blankLines
    else p.blankLines ++ p.lineBreak.toList
  { before := joined ++ p.before, wasBlank := g.isBlank, inLine := true, count := p.count }

/-- The scalar with its last breaks as `chomping` wants them. -/
def Partial.finish (p : Partial) (chomping : Chomping) : Taken String :=
  let breaks := match chomping with
    | .strip => []
    | .clip => p.lineBreak.toList
    | .keep => p.blankLines ++ p.lineBreak.toList
  ⟨String.ofList (breaks ++ p.before).reverse, p.count⟩

/-- Reads lines that are indented by `indent`. A tab in the indentation is an error. -/
def scanLines (literal : Bool) (chomping : Chomping) (indent : Nat) (p : Partial) :
    List Glyph → Option (Taken String)
  | [] => some (p.finish chomping)
  | g :: gs =>
    let taken := { p with count := p.count + 1 }
    if p.inLine then
      if g.isBreak then
        scanLines literal chomping indent { taken with lineBreak := some g.char, inLine := false } gs
      else scanLines literal chomping indent { taken with before := g.char :: p.before } gs
    else if g.mark.column < indent && g.char = ' ' then scanLines literal chomping indent taken gs
    else if g.mark.column < indent && g.char = '\t' then none
    else if g.isBreak then
      scanLines literal chomping indent { taken with blankLines := g.char :: p.blankLines } gs
    else if g.mark.column = indent then
      let opened := taken.openLine literal g
      scanLines literal chomping indent { opened with before := g.char :: opened.before } gs
    else some (p.finish chomping)

/-- The rest of a block scalar whose opening character has been taken, inside a block that is
indented by `outer` columns if there is one. -/
def scan (literal : Bool) (outer : Option Nat) (gs : List Glyph) : Option (Taken String) := do
  let ⟨header, marks⟩ ← header gs
  let rest ← lineRest (gs.drop marks)
  let lines := gs.drop (marks + rest)
  let least := max (outer.elim 0 (· + 1)) 1
  let indent ← match header.indent with
    | some n => some (outer.getD 0 + n)
    | none => (widest 0 lines).map (max · least)
  let ⟨text, count⟩ ← scanLines literal header.chomping indent {} lines
  return ⟨text, marks + rest + count⟩

end ProtoScribe.Yaml.Block

import ProtoScribe.Yaml.Scalar.Gap

/-!
# Plain scalars

A scalar without quotes ends before a colon that a gap follows, before a comment, before the bound
of a document, before a line that is not indented far enough, and in flow context before commas and
brackets. The gap at its end is taken too, but is no part of it.
-/

namespace ProtoScribe.Yaml.Plain

/-- A plain scalar, and whether the gap after it leads to another line. -/
structure Scanned where
  text : String
  broken : Bool
  deriving Repr, Inhabited

/-- The scalar so far, its characters in reverse. -/
structure Partial where
  before : List Char := []
  gap : Gap := .none
  count : Nat := 0
  deriving Repr, Inhabited

/-- The scalar without the gap at its end. -/
def Partial.finish (p : Partial) : Taken Scanned :=
  ⟨⟨String.ofList p.before.reverse, p.gap.isBroken⟩, p.count⟩

/-- The characters that end a plain scalar in flow context. -/
def isFlowIndicator (c : Char) : Bool := c = ',' || c = '[' || c = ']' || c = '{' || c = '}'

/-- Whether a scalar that has come to a word goes on with it. -/
def continues (flow : Bool) (indent : Nat) (p : Partial) (g : Glyph) (rest : List Glyph) : Bool :=
  p.gap = .none ||
    (flow || indent ≤ g.mark.column) && !atBoundary (g :: rest) && g.char != '#'

/-- Reads on in lines that are indented by `indent`. In flow context a colon right before a bracket,
comma or question mark is an error. -/
def scanFrom (flow : Bool) (indent : Nat) (p : Partial) : List Glyph → Option (Taken Scanned)
  | [] => some p.finish
  | g :: rest =>
    if g.isBlank || g.isBreak then
      if g.char = '\t' && p.gap.isBroken && g.mark.column < indent then none
      else scanFrom flow indent { p with gap := p.gap.push g, count := p.count + 1 } rest
    else if !continues flow indent p g rest then some p.finish
    else if flow && g.char = ':' && rest.head?.any (fun n => isFlowIndicator n.char || n.char = '?') then
      Option.none
    else if (g.char = ':' && atGap rest) || (flow && isFlowIndicator g.char) then some p.finish
    else
      scanFrom flow indent
        { before := g.char :: (p.gap.folded ++ p.before), gap := .none, count := p.count + 1 } rest

/-- The plain scalar at the head of a text. -/
def scan (flow : Bool) (indent : Nat) (gs : List Glyph) : Option (Taken Scanned) :=
  scanFrom flow indent {} gs

end ProtoScribe.Yaml.Plain

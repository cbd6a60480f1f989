import ProtoScribe.Yaml.Glyph

/-!
# Gaps inside scalars

Blanks and line breaks between the words of a flow scalar. Blanks within a line stand for
themselves. A line break stands for a space, unless more line breaks follow: then it stands for
nothing, and the others for themselves. Blanks around line breaks stand for nothing.
-/

namespace ProtoScribe.Yaml

/-- The blanks and breaks since the last word. -/
inductive Gap where
  /-- Blanks within a line, in reverse. -/
  | blanks (before : List Char)
  /-- A first break, unless it is escaped, and the breaks after it in reverse. -/
  | breaks (first : Option Char) (before : List Char)
  deriving DecidableEq, Repr, Inhabited

namespace Gap

/-- No gap at all. -/
def none : Gap := .blanks []

/-- Whether the gap leads to another line. -/
def isBroken : Gap → Bool
  | blanks _ => false
  | breaks _ _ => true

/-- The gap followed by one more blank or break. -/
def push (gap : Gap) (g : Glyph) : Gap :=
  match gap, g.isBreak with
  | blanks before, false => .blanks (g.char :: before)
  | blanks _, true => .breaks (some g.char) []
  | breaks first before, false => .breaks first before
  | breaks first before, true => .breaks first (g.char :: before)

/-- What the gap stands for, in reverse. -/
def folded : Gap → List Char
  | blanks before => before
  | breaks (some '\n') [] => [' ']
  | breaks (some '\n') before => before
  | breaks first before => before ++ first.toList

end Gap

end ProtoScribe.Yaml

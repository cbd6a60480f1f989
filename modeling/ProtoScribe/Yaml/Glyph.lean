/-!
# Characters in their places

A text as a list of characters, each with the place where it stands. Every way to break a line is
one glyph: a line feed, except for the two separators of Unicode, which a text may keep.

Whatever looks for something in a text says how many glyphs it takes, so that dropping these is
the only way to move on.
-/

namespace ProtoScribe.Yaml

/-- A place in a text: the bytes before it, and its line and column, the latter in characters. All
are counted from zero. -/
structure Mark where
  index : Nat := 0
  line : Nat := 0
  column : Nat := 0
  deriving DecidableEq, Repr, Inhabited

/-- A character in its place. -/
structure Glyph where
  char : Char
  mark : Mark
  deriving DecidableEq, Repr, Inhabited

/-- What was found at the head of a text, and how many glyphs it takes. -/
structure Taken (α : Type) where
  value : α
  count : Nat
  deriving Repr

namespace Mark

/-- The place after `bytes` that end a line. -/
def newLine (m : Mark) (bytes : Nat) : Mark := ⟨m.index + bytes, m.line + 1, 0⟩

/-- The place after a character that ends no line. -/
def right (m : Mark) (c : Char) : Mark :=
  { m with index := m.index + c.utf8Size, column := m.column + 1 }

/-- The place after `count` characters of one byte. -/
def skip (m : Mark) (count : Nat) : Mark :=
  { m with index := m.index + count, column := m.column + count }

end Mark

/-! ## Classes of characters -/

/-- Line feed, and the line and paragraph separators. -/
def isBreakChar (c : Char) : Bool := c = '\n' || c = '\u2028' || c = '\u2029'

/-- The characters that a text may hold. -/
def isAllowed (c : Char) : Bool :=
  let n := c.toNat
  n = 0x09 || n = 0x0A || n = 0x0D || (0x20 ≤ n && n ≤ 0x7E) || n = 0x85 || (0xA0 ≤ n && n ≤ 0xD7FF)
    || (0xE000 ≤ n && n ≤ 0xFFFD) || 0x10000 ≤ n

/-- The characters of names. -/
def isWordChar (c : Char) : Bool :=
  c.isAlphanum || c = '_' || c = '-'

namespace Glyph

/-- Whether the glyph ends a line. -/
def isBreak (g : Glyph) : Bool := isBreakChar g.char

/-- A space or a tab. -/
def isBlank (g : Glyph) : Bool := g.char = ' ' || g.char = '\t'

end Glyph

/-! ## Texts -/

/-- The glyphs of a text that starts at `m`, in reverse before the ones given, and its end. -/
def glyphsFrom (m : Mark) (before : List Glyph) : List Char → List Glyph × Mark
  | [] => (before.reverse, m)
  | '\r' :: '\n' :: cs => glyphsFrom (m.newLine 2) (⟨'\n', m⟩ :: before) cs
  | c :: cs =>
    if c = '\n' ∨ c = '\r' ∨ c = '\u0085' then
      glyphsFrom (m.newLine c.utf8Size) (⟨'\n', m⟩ :: before) cs
    else if isBreakChar c then glyphsFrom (m.newLine c.utf8Size) (⟨c, m⟩ :: before) cs
    else glyphsFrom (m.right c) (⟨c, m⟩ :: before) cs

/-- The mark that says that a text is Unicode. It may stand at the start of any line, where it takes a
column and means nothing. -/
def byteOrderMark : Char := '\ufeff'

/-- The glyphs of a whole text and its end, unless the text holds a character that none may. -/
def glyphs? (text : String) : Option (List Glyph × Mark) :=
  if text.toList.all isAllowed then some (glyphsFrom {} [] text.toList) else none

/-! ## Looking ahead -/

/-- Whether a text starts with a given character. -/
def startsWith (c : Char) : List Glyph → Bool
  | [] => false
  | g :: _ => g.char = c

/-- Whether a text is at its end or at a blank or break. -/
def atGap : List Glyph → Bool
  | [] => true
  | g :: _ => g.isBlank || g.isBreak

/-- How many glyphs the rest of a line takes that may hold a comment only, with its break. -/
def lineRest (gs : List Glyph) : Option Nat :=
  let blanks := (gs.takeWhile Glyph.isBlank).length
  let gs := gs.drop blanks
  let comment := if startsWith '#' gs then (gs.takeWhile (!·.isBreak)).length else 0
  match gs.drop comment with
  | [] => some (blanks + comment)
  | g :: _ => if g.isBreak then some (blanks + comment + 1) else none

/-- Whether three of a kind that bound a document stand at the head of a text. -/
def isBoundary (c : Char) (gs : List Glyph) : Bool :=
  match gs with
  | a :: b :: d :: rest => a.mark.column = 0 && a.char = c && b.char = c && d.char = c && atGap rest
  | _ => false

/-- Whether a document starts or ends here. -/
def atBoundary (gs : List Glyph) : Bool := isBoundary '-' gs || isBoundary '.' gs

end ProtoScribe.Yaml

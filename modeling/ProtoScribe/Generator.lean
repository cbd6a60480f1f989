import ProtoScribe.Header
import ProtoScribe.Schema.Source
import ProtoScribe.Write.Writer

/-!
# Generating proto files

A generator knows how to indent, what to put before the definitions, and how to write a file. It is
a value and keeps nothing between its uses.
-/

namespace ProtoScribe

/-- The settings of generated files. A header that says nothing is none. -/
structure Generator where
  width : UInt64 := .ofNat Source.defaultWidth
  mode : WriteMode := .truncate
  header : Option Header := none
  deriving DecidableEq, Repr, Inhabited

namespace Generator

/-- Sets the columns of indentation per level. -/
def withWidth (g : Generator) (width : UInt64) : Generator := { g with width }

/-- Sets how content gets into its file. -/
def withMode (g : Generator) (mode : WriteMode) : Generator := { g with mode }

/-- Sets the header; an empty one is dropped. -/
def withHeader (g : Generator) (h : Header) : Generator :=
  { g with header := if h.isEmpty then none else some h }

/-- The text of a file: the header, if there is one, and the definitions. -/
def text (g : Generator) (s : Schema) : Except Source.IndentOverflow String :=
  (s.render g.width.toNat).map ((g.header.elim "" Header.render) ++ ·)

end Generator

/-- How many definitions of each kind stand at the top. -/
def Schema.counts (s : Schema) : Counts := ⟨s.messages.length, s.enums.length, s.services.length⟩

namespace Host

variable {H : Type} {m : Type → Type} [Monad m]

/-- The text of a file. It is reported where no header precedes the definitions. -/
def render (host : Host H m) (g : Generator) (s : Schema) :
    m (Except Source.IndentOverflow String) := do
  match g.text s with
  | .error e => return .error e
  | .ok text =>
    if g.header.isNone then host.report (.emitted s.counts text.utf8ByteSize)
    return .ok text

/-- Writes the file of a schema under a logical name. -/
def generate (host : Host H m) (g : Generator) (name : String) (dir : Path) (s : Schema) :
    m (Except Source.IndentOverflow (Except WriteError Path)) := do
  match ← host.render g s with
  | .error e => return .error e
  | .ok text => return .ok (← host.writeText g.mode name dir text)

end Host

end ProtoScribe

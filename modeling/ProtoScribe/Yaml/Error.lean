import ProtoScribe.Document.Complaint
import ProtoScribe.Yaml.Glyph

/-!
# Why a YAML text is refused

A complaint about a value names the place of the value in the document, by keys and indices, and
the place in the text where it starts.
-/

namespace ProtoScribe.Yaml

/-- One step on the way to a value. -/
inductive PathStep where
  | key (name : String)
  | index (i : Nat)
  /-- A key that is written as an alias. -/
  | unnamed
  deriving DecidableEq, Repr, Inhabited

/-- The way from the root to a value, last step first. -/
abbrev Path : Type := List PathStep

/-- A path as messages show it. -/
def Path.render : Path → String
  | [] => ""
  | step :: outer =>
    let before := render outer
    let dotted := if outer.isEmpty then before else before ++ "."
    match step with
    | .key name => dotted ++ name
    | .index i => before ++ "[" ++ toString i ++ "]"
    | .unnamed => dotted ++ "?"

/-- Where a value stands in the document and in the text. -/
structure Place where
  path : Path
  mark : Mark
  deriving DecidableEq, Repr, Inhabited

/-- Why a text is refused. -/
inductive Error where
  /-- The text is no YAML. -/
  | malformed
  /-- There is no value. -/
  | ended
  /-- Sequences and mappings nest too deep. -/
  | nestedTooDeep (mark : Mark)
  /-- Aliases repeat too much. -/
  | repeatedTooOften
  /-- Something follows the first document. -/
  | severalDocuments
  | complaint (complaint : Document.Complaint) (place : Option Place)
  deriving DecidableEq, Repr, Inhabited

/-- A missing value is called by what it is, and every number has its digits in their places. -/
def spelling : Document.Spelling := ⟨"unit value", .inPlace⟩

/-- The end of a message about a place, which leaves out the very start of a text. -/
def Mark.describe (m : Mark) : String :=
  if m.line = 0 ∧ m.column = 0 then ""
  else " at line " ++ toString (m.line + 1) ++ " column " ++ toString (m.column + 1)

/-- The message of an error, which does not go into how a text is malformed. -/
def Error.message : Error → String
  | .malformed => "malformed document"
  | .ended => "EOF while parsing a value"
  | .nestedTooDeep mark => "recursion limit exceeded" ++ mark.describe
  | .repeatedTooOften => "repetition limit exceeded"
  | .severalDocuments =>
    "deserializing from YAML containing more than one document is not supported"
  | .complaint c none => c.message spelling
  | .complaint c (some ⟨path, mark⟩) =>
    (if path.isEmpty then "" else path.render ++ ": ") ++ c.message spelling ++ mark.describe

end ProtoScribe.Yaml

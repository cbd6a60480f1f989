/-!
# File headers

The statements before the definitions of a file: the level of the language, the package, the
imports and the options. Each kind that is present is one section, and a blank line closes each
section.
-/

namespace ProtoScribe

/-- A level of the language that a file may declare. -/
inductive Dialect where
  | proto2
  | proto3
  deriving DecidableEq, Repr, Inhabited

/-- The name by which a file declares a dialect. -/
def Dialect.name : Dialect → String
  | .proto2 => "proto2"
  | .proto3 => "proto3"

/-- An option statement; its value is a string literal or bare words. -/
structure FileOption where
  name : String
  value : String
  quoted : Bool := true
  deriving DecidableEq, Repr, Inhabited

/-- An option whose value is a string literal. -/
def FileOption.string (name value : String) : FileOption := ⟨name, value, true⟩

/-- An option whose value is an identifier or a number. -/
def FileOption.bare (name value : String) : FileOption := ⟨name, value, false⟩

/-- What precedes the definitions. -/
structure Header where
  dialect : Option Dialect := none
  package : Option String := none
  imports : List String := []
  options : List FileOption := []
  deriving DecidableEq, Repr, Inhabited

namespace Header

/-- A header that says nothing. -/
def isEmpty (h : Header) : Bool :=
  h.dialect.isNone && h.package.isNone && h.imports.isEmpty && h.options.isEmpty

end Header

/-- The statement of an option. Its value is taken as it is, between quotes or without. -/
def FileOption.text (o : FileOption) : String :=
  "option " ++ o.name ++ " = " ++ (if o.quoted then "\"" ++ o.value ++ "\"" else o.value) ++ ";"

namespace Header

/-- The statements of each kind, in the order of the file. -/
def sections (h : Header) : List (List String) :=
  [ h.dialect.toList.map fun d => "syntax = \"" ++ d.name ++ "\";",
    h.package.toList.map fun p => "package " ++ p ++ ";",
    h.imports.map fun i => "import \"" ++ i ++ "\";",
    h.options.map FileOption.text ]

/-- A section with the blank line that closes it; an empty one leaves no trace. -/
def sectionText (statements : List String) : String :=
  if statements.isEmpty then "" else String.join (statements.map (· ++ "\n")) ++ "\n"

/-- The text of a header. -/
def render (h : Header) : String := String.join (h.sections.map sectionText)

end Header

end ProtoScribe

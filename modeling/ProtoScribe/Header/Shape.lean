import ProtoScribe.Header
import ProtoScribe.Schema.Shape

/-!
# The shape of a header document

Every part of a header may be left out, and an option's value is a string literal unless the
document denies it.
-/

namespace ProtoScribe

open Document

/-- The words for dialects. -/
def Dialect.words : List (String × Dialect) := [("proto2", .proto2), ("proto3", .proto3)]

/-- An option has a name and a value. -/
def FileOption.shape : Shape FileOption :=
  .record "FileOption" false
    (Parts.string "name" <| Parts.string "value" <| Parts.flag "quoted" true .none)
    fun (name, value, quoted, ()) => { name, value, quoted }

/-- A header has no part that has to be there. -/
def Header.shape : Shape Header :=
  .record "FileHeader" false
    (.part "syntax" (some none) (.optional (.choice Dialect.words)) <|
      .part "package" (some none) (.optional Shape.string) <|
      Parts.list "imports" Shape.string <| Parts.list "options" FileOption.shape .none)
    fun (dialect, package, imports, options, ()) => { dialect, package, imports, options }

end ProtoScribe

import ProtoScribe.Decimal.Spelling
import ProtoScribe.Text.Quoted

/-!
# Complaints about documents

What can be wrong with a well-formed document, whatever format it is written in. A format differs
in two spellings only: how it names a missing value, and how it writes a number with a fraction.
-/

namespace ProtoScribe.Document

/-- What stands where something else was expected. -/
inductive Found where
  | nothing
  | flag (value : Bool)
  | integer (value : Int)
  /-- An integer beyond 64 bits, in which case the message names a type that holds it. -/
  | wide (value : Int)
  | real (value : Decimal.Real)
  | text (value : String)
  | sequence
  | mapping
  deriving DecidableEq, Repr, Inhabited

/-- What is wrong with a value of a document. -/
inductive Complaint where
  /-- A value of another kind than `expected`. -/
  | wrongType (found : Found) (expected : String)
  /-- A value of the right kind that `expected` excludes. -/
  | wrongValue (found : Found) (expected : String)
  /-- A sequence that ends after `count` items, before all required parts of `expected`. -/
  | wrongLength (count : Nat) (expected : String)
  | missing (key : String)
  | duplicate (key : String)
  | unknownKey (key : String) (known : List String)
  | unknownChoice (word : String) (known : List String)
  deriving DecidableEq, Repr, Inhabited

/-- How a format spells what it finds. -/
structure Spelling where
  nothing : String
  real : Decimal.Style

/-- A name between grave accents. -/
def ticked (name : String) : String := "`" ++ name ++ "`"

/-- What was found, by its kind and, for scalars, by its value. -/
def Found.describe (spelling : Spelling) : Found → String
  | .nothing => spelling.nothing
  | .flag b => "boolean " ++ ticked (if b then "true" else "false")
  | .integer i => "integer " ++ ticked (toString i)
  | .wide i => "integer " ++ ticked (toString i) ++ (if i < 0 then " as i128" else " as u128")
  | .real r => "floating point " ++ ticked (r.spell spelling.real)
  | .text s => "string " ++ Text.quoted s
  | .sequence => "sequence"
  | .mapping => "map"

/-- The names that would do, as the end of a sentence. -/
def alternatives : List String → String
  | [] => "there are none"
  | [a] => "expected " ++ ticked a
  | [a, b] => "expected " ++ ticked a ++ " or " ++ ticked b
  | names => "expected one of " ++ ", ".intercalate (names.map ticked)

/-- The complaint on one line. -/
def Complaint.message (spelling : Spelling) : Complaint → String
  | .wrongType found expected => "invalid type: " ++ found.describe spelling ++ ", expected " ++ expected
  | .wrongValue found expected => "invalid value: " ++ found.describe spelling ++ ", expected " ++ expected
  | .wrongLength count expected => "invalid length " ++ toString count ++ ", expected " ++ expected
  | .missing key => "missing field " ++ ticked key
  | .duplicate key => "duplicate field " ++ ticked key
  | .unknownKey key known => "unknown field " ++ ticked key ++ ", " ++ alternatives known
  | .unknownChoice word known => "unknown variant " ++ ticked word ++ ", " ++ alternatives known

end ProtoScribe.Document

import ProtoScribe.Document.Shape
import ProtoScribe.Schema.Basic

/-!
# The shape of a schema document

Every list of a schema document may be left out, and so may a field's label and a method's two
streaming flags. A message holds messages, so its shape is given for a bound on their depth; the
bound of a schema's shape is one that no readable document reaches.
-/

namespace ProtoScribe

open Document

/-- The words for labels. -/
def Label.words : List (String × Label) :=
  [("singular", .singular), ("optional", .optional), ("required", .required), ("repeated", .repeated)]

/-- Numbers of fields. -/
def Field.tags : IntegerKind UInt32 where
  name := "u32"
  least := 0
  greatest := UInt32.size - 1
  ofInt i := .ofNat i.toNat

/-- Numbers of enum values. -/
def EnumValue.numbers : IntegerKind Int32 where
  name := "i32"
  least := Int32.minValue.toInt
  greatest := Int32.maxValue.toInt
  ofInt := .ofInt

/-- A field may leave out its label, which is then singular. -/
def Field.shape : Shape Field :=
  .record "FieldDef" false
    (.part "label" (some .singular) (.choice Label.words) <| Parts.string "type_name" <|
      Parts.string "name" <| .part "tag" none (.integer tags) .none)
    fun (label, typeName, name, tag, ()) => { label, typeName, name, tag }

/-- A value has a name and a number. -/
def EnumValue.shape : Shape EnumValue :=
  .record "EnumValueDef" false
    (Parts.string "name" <| .part "number" none (.integer numbers) .none)
    fun (name, number, ()) => { name, number }

/-- An enum has a name and may leave out its values. -/
def Enum.shape : Shape Enum :=
  .record "EnumDef" false (Parts.string "name" <| Parts.list "values" EnumValue.shape .none)
    fun (name, values, ()) => { name, values }

/-- A method may leave out each of its flags, which is then off. -/
def Method.shape : Shape Method :=
  .record "MethodDef" false
    (Parts.string "name" <| Parts.string "input_type" <| Parts.string "output_type" <|
      Parts.flag "client_streaming" false <| Parts.flag "server_streaming" false .none)
    fun (name, input, output, clientStreams, serverStreams, ()) =>
      { name, input, output, clientStreams, serverStreams }

/-- A service has a name and may leave out its methods. -/
def Service.shape : Shape Service :=
  .record "ServiceDef" false (Parts.string "name" <| Parts.list "methods" Method.shape .none)
    fun (name, methods, ()) => { name, methods }

/-- A message in which messages nest to a depth below `bound`. -/
def Message.shape : (bound : Nat) → Shape Message
  | 0 => .beyond
  | bound + 1 =>
    .record "MessageDef" false
      (Parts.string "name" <| Parts.list "fields" Field.shape <| Parts.list "enums" Enum.shape <|
        Parts.list "messages" (Message.shape bound) .none)
      fun (name, fields, enums, messages, ()) => { name, fields, enums, messages }

/-- A depth of messages that lies beyond what any format lets a document nest. -/
def Message.depthBound : Nat := 64

/-- A schema may leave out each of its lists. -/
def Schema.shape : Shape Schema :=
  .record "SchemaFile" false
    (Parts.list "messages" (Message.shape Message.depthBound) <| Parts.list "enums" Enum.shape <|
      Parts.list "services" Service.shape .none)
    fun (messages, enums, services, ()) => { messages, enums, services }

end ProtoScribe

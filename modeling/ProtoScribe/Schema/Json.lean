import ProtoScribe.Json.Value
import ProtoScribe.Schema.Basic

/-!
# Schemas as JSON

A definition is an object with all its parts in the order of their declaration, empty lists and
default flags included.
-/

namespace ProtoScribe

open Json (Value)

/-- A label is its keyword, and the word for a singular field is spelled out. -/
def Label.toJson (l : Label) : Value := .string (l.keyword.getD "singular")

/-- A field with its label, whether that has a keyword or not. -/
def Field.toJson (f : Field) : Value :=
  .object [("label", f.label.toJson), ("type_name", .string f.typeName), ("name", .string f.name),
    ("tag", .integer f.tag.toNat)]

/-- A value with its signed number. -/
def EnumValue.toJson (v : EnumValue) : Value :=
  .object [("name", .string v.name), ("number", .integer v.number.toInt)]

/-- An enum with its values. -/
def Enum.toJson (e : Enum) : Value :=
  .object [("name", .string e.name), ("values", .array (e.values.map EnumValue.toJson))]

mutual

/-- A message with everything nested in it. -/
def Message.toJson : Message → Value
  | ⟨name, fields, enums, messages⟩ =>
    .object [("name", .string name), ("fields", .array (fields.map Field.toJson)),
      ("enums", .array (enums.map Enum.toJson)), ("messages", .array (Message.listToJson messages))]

/-- Messages in order. -/
def Message.listToJson : List Message → List Value
  | [] => []
  | m :: ms => m.toJson :: Message.listToJson ms

end

/-- A method with both its flags. -/
def Method.toJson (m : Method) : Value :=
  .object [("name", .string m.name), ("input_type", .string m.input),
    ("output_type", .string m.output), ("client_streaming", .flag m.clientStreams),
    ("server_streaming", .flag m.serverStreams)]

/-- A service with its methods. -/
def Service.toJson (s : Service) : Value :=
  .object [("name", .string s.name), ("methods", .array (s.methods.map Method.toJson))]

/-- A schema with its three lists. -/
def Schema.toJson (s : Schema) : Value :=
  .object [("messages", .array (Message.listToJson s.messages)),
    ("enums", .array (s.enums.map Enum.toJson)), ("services", .array (s.services.map Service.toJson))]

/-- A schema as compact JSON. -/
def Schema.jsonText (s : Schema) : String := String.ofList s.toJson.render

end ProtoScribe

import ProtoScribe.Schema.Basic
import ProtoScribe.Source

/-!
# A schema as proto source

Each definition is a block: an opening line, the lines of what it holds one level deeper, and a
closing line. A message holds its fields, then its enums, then its messages. At the top come the
messages, then the enums, then the services, each followed by a blank line.
-/

namespace ProtoScribe

open Source

/-! ## Lines -/

/-- A block with the given opening words around `body`. -/
def Source.block (depth : Nat) (keyword name : String) (body : List Line) : List Line :=
  ⟨depth, keyword ++ " " ++ name ++ " \x7b"⟩ :: body ++ [⟨depth, "\x7d"⟩]

/-- The label's keyword, if any, then type, name and tag. -/
def Field.text (f : Field) : String :=
  (f.label.keyword.elim "" (· ++ " ")) ++ f.typeName ++ " " ++ f.name ++ " = "
    ++ toString f.tag.toNat ++ ";"

/-- Name and signed number. -/
def EnumValue.text (v : EnumValue) : String := v.name ++ " = " ++ toString v.number.toInt ++ ";"

/-- The type of a call's argument or result, marked if it is a stream. -/
def Method.typeText (streams : Bool) (type : String) : String :=
  (if streams then "stream " else "") ++ type

/-- Name, argument and result. -/
def Method.text (m : Method) : String :=
  "rpc " ++ m.name ++ " (" ++ typeText m.clientStreams m.input ++ ") returns ("
    ++ typeText m.serverStreams m.output ++ ");"

/-- The block of an enum, its values inside. -/
def Enum.lines (depth : Nat) (e : Enum) : List Line :=
  block depth "enum" e.name (e.values.map fun v => ⟨depth + 1, v.text⟩)

mutual

/-- The block of a message: its fields, then its enums, then its messages. -/
def Message.lines (depth : Nat) : Message → List Line
  | ⟨name, fields, enums, messages⟩ =>
    block depth "message" name
      (fields.map (fun f => ⟨depth + 1, f.text⟩) ++ enums.flatMap (Enum.lines (depth + 1))
        ++ Message.listLines (depth + 1) messages)

/-- The blocks of messages, one after the other. -/
def Message.listLines (depth : Nat) : List Message → List Line
  | [] => []
  | m :: ms => m.lines depth ++ Message.listLines depth ms

end

/-- The block of a service, its methods inside. -/
def Service.lines (s : Service) : List Line :=
  block 0 "service" s.name (s.methods.map fun m => ⟨1, m.text⟩)

/-- The blocks of a schema, each followed by a blank line. -/
def Schema.lines (s : Schema) : List Line :=
  s.messages.flatMap (fun m => m.lines 0 ++ [.blank])
    ++ s.enums.flatMap (fun e => e.lines 0 ++ [.blank])
    ++ s.services.flatMap (fun d => d.lines ++ [.blank])

/-! ## Text -/

/-- The columns of indentation per level where nothing else is asked for. -/
def Source.defaultWidth : Nat := 2

/-- The proto source of a schema. -/
def Schema.render (width : Nat) (s : Schema) : Except IndentOverflow String :=
  Source.render width s.lines

end ProtoScribe

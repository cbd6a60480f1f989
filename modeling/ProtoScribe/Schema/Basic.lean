/-!
# Schema trees

What a schema document describes: messages with their fields, enums with their values, and
services with their methods. The order of every list is the order of declaration; nothing here
checks names or numbers, so a tree may hold any text and any number of the right width.

Trees are built from the empty ones by the `add` functions, each of which appends.
-/

namespace ProtoScribe

/-! ## Definitions -/

/-- How often a field may occur. -/
inductive Label where
  | singular
  | optional
  | required
  | repeated
  deriving DecidableEq, Repr, Inhabited

/-- The word that precedes a field's type; a singular field has none. -/
def Label.keyword : Label → Option String
  | .singular => none
  | .optional => some "optional"
  | .required => some "required"
  | .repeated => some "repeated"

/-- A field of a message. -/
structure Field where
  label : Label := .singular
  typeName : String
  name : String
  tag : UInt32
  deriving DecidableEq, Repr, Inhabited

/-- A named number of an enum. -/
structure EnumValue where
  name : String
  number : Int32
  deriving DecidableEq, Inhabited

/-- An enum, at the top of a schema or inside a message. -/
structure Enum where
  name : String
  values : List EnumValue := []
  deriving DecidableEq, Inhabited

/-- A message with its fields and the definitions nested in it. -/
structure Message where
  name : String
  fields : List Field := []
  enums : List Enum := []
  messages : List Message := []
  deriving Inhabited

/-- A remote call, with a flag for each direction that is a stream. -/
structure Method where
  name : String
  input : String
  output : String
  clientStreams : Bool := false
  serverStreams : Bool := false
  deriving DecidableEq, Repr, Inhabited

/-- A service with its methods. -/
structure Service where
  name : String
  methods : List Method := []
  deriving DecidableEq, Repr, Inhabited

/-- A whole schema. -/
structure Schema where
  messages : List Message := []
  enums : List Enum := []
  services : List Service := []
  deriving Inhabited

/-! ## Equality of trees -/

mutual

/-- Two messages are equal, or provably not. -/
def Message.decideEq : (m n : Message) → Decidable (m = n)
  | ⟨name, fields, enums, messages⟩, ⟨name', fields', enums', messages'⟩ =>
    match decEq name name', decEq fields fields', decEq enums enums',
        Message.decideEqList messages messages' with
    | .isTrue h₁, .isTrue h₂, .isTrue h₃, .isTrue h₄ => .isTrue (by rw [h₁, h₂, h₃, h₄])
    | .isFalse h, _, _, _ => .isFalse fun e => h (Message.mk.inj e).1
    | _, .isFalse h, _, _ => .isFalse fun e => h (Message.mk.inj e).2.1
    | _, _, .isFalse h, _ => .isFalse fun e => h (Message.mk.inj e).2.2.1
    | _, _, _, .isFalse h => .isFalse fun e => h (Message.mk.inj e).2.2.2

/-- Two lists of messages are equal, or provably not. -/
def Message.decideEqList : (ms ns : List Message) → Decidable (ms = ns)
  | [], [] => .isTrue rfl
  | [], _ :: _ => .isFalse nofun
  | _ :: _, [] => .isFalse nofun
  | m :: ms, n :: ns =>
    match Message.decideEq m n, Message.decideEqList ms ns with
    | .isTrue h₁, .isTrue h₂ => .isTrue (by rw [h₁, h₂])
    | .isFalse h, _ => .isFalse fun e => h (List.cons.inj e).1
    | _, .isFalse h => .isFalse fun e => h (List.cons.inj e).2

end

instance : DecidableEq Message := Message.decideEq

deriving instance DecidableEq for Schema

/-! ## Emptiness -/

/-- A message with nothing between its braces. -/
def Message.isEmpty (m : Message) : Bool :=
  m.fields.isEmpty && m.enums.isEmpty && m.messages.isEmpty

/-- A schema that defines nothing. -/
def Schema.isEmpty (s : Schema) : Bool :=
  s.messages.isEmpty && s.enums.isEmpty && s.services.isEmpty

/-! ## Building -/

/-- A field without a keyword. -/
def Field.singular (typeName name : String) (tag : UInt32) : Field := { typeName, name, tag }

/-- The field with another label. -/
def Field.withLabel (f : Field) (label : Label) : Field := { f with label }

/-- A field that may be left out. -/
def Field.optional (typeName name : String) (tag : UInt32) : Field :=
  (singular typeName name tag).withLabel .optional

/-- A field that may occur any number of times. -/
def Field.repeated (typeName name : String) (tag : UInt32) : Field :=
  (singular typeName name tag).withLabel .repeated

/-- The message with one more field, its last. -/
def Message.addField (m : Message) (f : Field) : Message := { m with fields := m.fields ++ [f] }

/-- The message with one more enum, its last. -/
def Message.addEnum (m : Message) (e : Enum) : Message := { m with enums := m.enums ++ [e] }

/-- The message with one more message in it, its last. -/
def Message.addMessage (m n : Message) : Message := { m with messages := m.messages ++ [n] }

/-- The enum with one more value, its last. -/
def Enum.addValue (e : Enum) (name : String) (number : Int32) : Enum :=
  { e with values := e.values ++ [⟨name, number⟩] }

/-- Sets the two streaming flags. -/
def Method.streaming (m : Method) (client server : Bool) : Method :=
  { m with clientStreams := client, serverStreams := server }

/-- The service with one more method, its last. -/
def Service.addMethod (s : Service) (m : Method) : Service := { s with methods := s.methods ++ [m] }

/-- The schema with one more message, its last. -/
def Schema.addMessage (s : Schema) (m : Message) : Schema := { s with messages := s.messages ++ [m] }

/-- The schema with one more enum, its last. -/
def Schema.addEnum (s : Schema) (e : Enum) : Schema := { s with enums := s.enums ++ [e] }

/-- The schema with one more service, its last. -/
def Schema.addService (s : Schema) (d : Service) : Schema := { s with services := s.services ++ [d] }

end ProtoScribe

import ProtoScribe.Json.Read
import ProtoScribe.Schema.Shape
import ProtoScribe.Storage.Host
import ProtoScribe.Yaml.Read

/-!
# Loading schema documents

The extension of a file's name says how the document in it is written.
-/

namespace ProtoScribe

/-- The ways to write a document. -/
inductive Format where
  | json
  | yaml
  deriving DecidableEq, Repr, Inhabited

/-- Why a text is no document of its format. -/
inductive DocumentError where
  | json (e : Json.Error)
  | yaml (e : Yaml.Error)
  deriving DecidableEq, Repr, Inhabited

/-- What a document means under a shape. -/
def Format.read {α : Type} (shape : Document.Shape α) (text : String) :
    Format → Except DocumentError α
  | .json => (Json.read shape text).mapError .json
  | .yaml => (Yaml.read shape text).mapError .yaml

/-- The format of files with an extension, in which the case of letters does not matter. -/
def Format.ofExtension? (extension : String) : Option Format :=
  let lower := extension.map Char.toLower
  if lower = "yaml" ∨ lower = "yml" then some .yaml else if lower = "json" then some .json else none

/-- The format of a file, judged by its name. -/
def Path.format? (p : Path) : Option Format := p.extension?.bind Format.ofExtension?

/-- The error in the words of its format. -/
def DocumentError.message : DocumentError → String
  | .json e => e.message
  | .yaml e => e.message

/-- Why a schema document could not be loaded. -/
inductive LoadError where
  | unreadable (path : Path) (fault : StorageFault)
  | invalid (e : DocumentError)
  | unsupported (path : Path)
  deriving DecidableEq, Repr, Inhabited

namespace LoadError

/-- The error with the path or format that it is about. -/
def message : LoadError → String
  | unreadable path fault =>
    "failed to read schema document '" ++ path.text ++ "': " ++ fault.message
  | invalid (.json e) => "invalid JSON schema: " ++ e.message
  | invalid (.yaml e) => "invalid YAML schema: " ++ e.message
  | unsupported path =>
    "unsupported schema document format: '" ++ path.text ++ "' (expected .yaml, .yml or .json)"

/-- The message of the error behind this one. -/
def source? : LoadError → Option String
  | unreadable _ fault => some fault.message
  | invalid e => some e.message
  | unsupported _ => none

end LoadError

/-- The schema that a text describes. -/
def Schema.read (format : Format) (text : String) : Except LoadError Schema :=
  (format.read Schema.shape text).mapError .invalid

namespace Host

variable {H : Type} {m : Type → Type} [Monad m]

/-- Loads a schema document. -/
def loadSchema (host : Host H m) (path : Path) : m (Except LoadError Schema) := do
  match path.format? with
  | none => return .error (.unsupported path)
  | some format =>
    match ← host.readText path with
    | .error fault => return .error (.unreadable path fault)
    | .ok text => return Schema.read format text

end Host

end ProtoScribe

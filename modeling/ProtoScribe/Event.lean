import ProtoScribe.Text.Terminal
import ProtoScribe.Write.Error

/-!
# What is reported

Each event has a level and is written on one line, its message before what it tells by name.
-/

namespace ProtoScribe

/-- How much an event matters, from the most on. -/
inductive Level where
  | error
  | info
  | debug
  deriving DecidableEq, Repr, Inhabited

/-- The word that a line starts with. -/
def Level.name : Level → String
  | .error => "ERROR"
  | .info => "INFO"
  | .debug => "DEBUG"

/-- How many definitions of each kind stand at the top of a schema. -/
structure Counts where
  messages : Nat
  enums : Nat
  services : Nat
  deriving DecidableEq, Repr, Inhabited

/-- Something worth a report. -/
inductive Event where
  | loadingConfig (path : Path)
  | loadedSchema (path : Path) (counts : Counts)
  | emitted (counts : Counts) (bytes : Nat)
  | creatingDirectory (path : Path)
  | written (path : Path) (bytes : Nat) (mode : WriteMode)
  | notWritten (error : WriteError)
  | failed (reason : String)
  deriving DecidableEq, Repr, Inhabited

namespace Event

/-- A failed run is an error, a written file is worth knowing, and all else is detail. -/
def level : Event → Level
  | failed _ => .error
  | written _ _ _ => .info
  | loadingConfig _ | loadedSchema _ _ | emitted _ _ | creatingDirectory _ | notWritten _ => .debug

/-- What happened. -/
def message : Event → String
  | loadingConfig _ => "loading config"
  | loadedSchema _ _ => "loaded schema document"
  | emitted _ _ => "emitted proto source"
  | creatingDirectory _ => "creating output directory"
  | written _ _ _ => "proto content serialised"
  | notWritten _ => "proto serialisation failed"
  | failed reason => reason

/-- Counts by name. -/
def countFields (c : Counts) : List (String × String) :=
  [("messages", toString c.messages), ("enums", toString c.enums), ("services", toString c.services)]

/-- What the event tells by name. -/
def fields : Event → List (String × String)
  | loadingConfig path => [("path", path.text)]
  | loadedSchema path counts => ("path", path.text) :: countFields counts
  | emitted counts bytes => countFields counts ++ [("bytes", toString bytes)]
  | creatingDirectory path => [("dir", path.text)]
  | written path bytes mode =>
    [("path", path.text), ("bytes", toString bytes), ("mode", mode.name)]
  | notWritten e => [("kind", e.step.label), ("path", e.path.text), ("error", e.message)]
  | failed _ => []

/-- The line of an event. Only its message is kept from a terminal that would obey it: what an
event tells by name is shown as it is. -/
def line (e : Event) : String :=
  e.level.name ++ " " ++ Text.forTerminal e.message
    ++ String.join (e.fields.map fun (name, value) => " " ++ name ++ "=" ++ value)

end Event

/-- Whether events of a level are reported at a verbosity. -/
def Level.isReported (verbosity : Nat) : Level → Bool
  | .error => true
  | .info => 1 ≤ verbosity
  | .debug => 2 ≤ verbosity

/-- The events that are reported at a verbosity. -/
def Event.reported (verbosity : Nat) (events : List Event) : List Event :=
  events.filter (·.level.isReported verbosity)

end ProtoScribe

import ProtoScribe.Command.Help
import ProtoScribe.Config
import ProtoScribe.Load

/-!
# Running commands

A run ends with a status and with what it has to say on its output. A failure says nothing there:
it is reported as an event, the last one of the run.
-/

namespace ProtoScribe.Command

/-- How a run ends. -/
inductive Status where
  | success
  | failure
  | misuse
  /-- A line would have to be indented too far. -/
  | overflow
  deriving DecidableEq, Repr, Inhabited

/-- The exit code of a run. -/
def Status.code : Status → Nat
  | .success => 0
  | .failure => 1
  | .misuse => 2
  | .overflow => 101

/-- The end of a run. -/
structure Outcome where
  status : Status
  output : String := ""
  deriving DecidableEq, Repr, Inhabited

/-- Why a command fails. -/
inductive Failure where
  | config (e : Config.Error)
  | schema (path : Path) (e : LoadError)
  | noName (schema : Path)
  | write (name : String) (dir : Path) (e : WriteError)
  deriving DecidableEq, Repr, Inhabited

/-- Messages from the outermost cause to the innermost. -/
def chain (messages : List String) : String := ": ".intercalate messages

/-- What a failure to load a schema is called, without its cause. -/
def loadContext (path : Path) : String := "failed to load schema: " ++ path.text

/-- A failure to load a schema with all its causes. -/
def loadChain (path : Path) (e : LoadError) : String :=
  chain (loadContext path :: e.message :: e.source?.toList)

/-- The failure with all its causes, on one line. -/
def Failure.message : Failure → String
  | .config e => e.message
  | .schema path e => loadChain path e
  | .noName path => "cannot derive an output name from " ++ path.text ++ "; pass --name"
  | .write name dir e =>
    chain (("failed to generate '" ++ name ++ "' into " ++ dir.text) :: e.message
      :: (e.source.map StorageFault.message).toList)

/-- Why a command does not end well. -/
inductive Stop where
  | failed (f : Failure)
  | overflow
  deriving Repr, Inhabited

variable {H : Type} {m : Type → Type} [Monad m]

/-- Loads the schema of a command. -/
def loadSchema (host : Host H m) (path : Path) : ExceptT LoadError m Schema := do
  let schema ← ExceptT.mk (host.loadSchema path)
  host.report (.loadedSchema path schema.counts)
  return schema

/-- The name to generate under: the one that is given, or that of the schema's file. -/
def logicalName (schema : Path) (name : Option String) : Except Failure String :=
  match name <|> schema.stem? with
  | some name => .ok name
  | none => .error (.noName schema)

/-- The directory to generate into: the one that is given, or the configured one, or this one. -/
def outputDirectory (c : Config) (given : Option Path) : Path := (given <|> c.outputDir).getD ⟨"."⟩

/-- Does what is asked for with a schema, and returns what there is to say. -/
def perform (host : Host H m) (c : Config) (schemaPath : Path) (action : Action) :
    ExceptT Stop m String := do
  let schema ← (loadSchema host schemaPath).adapt fun e => .failed (.schema schemaPath e)
  match action with
  | .print => (ExceptT.mk (host.render (c.generator false) schema)).adapt fun _ => .overflow
  | .generate name dir atomic =>
    let name ← ExceptT.mk (pure ((logicalName schemaPath name).mapError .failed))
    let dir := outputDirectory c dir
    let result ← (ExceptT.mk (host.generate (c.generator atomic) name dir schema)).adapt
      fun _ => .overflow
    match result with
    | .ok path => return "OK: wrote " ++ path.text ++ "\n"
    | .error e => throw (.failed (.write name dir e))

/-- Finds the configuration and does what is asked for. -/
def execute (host : Host H m) (i : Invocation) : ExceptT Stop m String := do
  let c ← (ExceptT.mk (do host.discoverConfig i.config (← host.workingDirectory))).adapt
    fun e => .failed (.config e)
  perform host c i.schema i.action

/-- Runs a command. -/
def invoke (host : Host H m) (i : Invocation) : m Outcome := do
  match ← (execute host i).run with
  | .ok output => return ⟨.success, output⟩
  | .error .overflow => return { status := .overflow }
  | .error (.failed f) =>
    host.report (.failed f.message)
    return { status := .failure }

/-- Answers a request. -/
def respond (host : Host H m) : Request → m Outcome
  | .run i => invoke host i
  | .help topic => return ⟨.success, topic.text⟩
  | .version => return ⟨.success, versionText⟩
  | .misuse => return { status := .misuse }

/-- How much a request wants to have reported. -/
def Request.verbosity : Request → Nat
  | .run i => i.verbosity
  | _ => 0

/-- Runs the program with the words of a command line. -/
def run (host : Host H m) (words : List String) : m Outcome := respond host (.ofWords words)

/-- Runs the program and has those events reported that the words ask for. -/
def start (host : Host H m) (words : List String) : m Outcome :=
  run (host.listening (Request.ofWords words).verbosity) words

end ProtoScribe.Command

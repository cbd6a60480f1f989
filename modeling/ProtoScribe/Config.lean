import ProtoScribe.Generator
import ProtoScribe.Header.Shape
import ProtoScribe.Yaml.Read

/-!
# Configuration

A configuration gives defaults for what the command line leaves open. It is a YAML document, and
every part of it may be left out.
-/

namespace ProtoScribe

open Document

/-- Defaults for generated files. -/
structure Config where
  outputDir : Option Path := none
  indentWidth : UInt64 := .ofNat Source.defaultWidth
  atomicWrites : Bool := false
  header : Option Header := none
  deriving DecidableEq, Repr, Inhabited

namespace Config

/-- Widths of indentation. -/
def widths : IntegerKind UInt64 where
  name := "usize"
  least := 0
  greatest := UInt64.size - 1
  ofInt i := .ofNat i.toNat

/-- The shape of a configuration, which admits no other parts. -/
def shape : Shape Config :=
  .record "ProtomakConfig" true
    (.part "output_dir" (some none) (.optional (.text "path string")) <|
      .part "indent_width" (some ({} : Config).indentWidth) (.integer widths) <|
      .flag "atomic_writes" false <|
      .part "header" (some none) (.optional Header.shape) .none)
    fun (outputDir, indentWidth, atomicWrites, header, ()) =>
      { outputDir := outputDir.map Path.mk, indentWidth, atomicWrites, header }

/-- Why a configuration could not be loaded. -/
inductive Error where
  | unreadable (path : Path) (fault : StorageFault)
  | invalid (path : Path) (e : Yaml.Error)
  deriving DecidableEq, Repr, Inhabited

/-- The configuration that a text describes. -/
def read (text : String) (path : Path) : Except Error Config :=
  (Yaml.read shape text).mapError (.invalid path)

/-- The generator that a configuration asks for; a write is atomic if that or the caller wants
it. -/
def generator (c : Config) (atomic : Bool) : Generator :=
  let g := ({} : Generator).withWidth c.indentWidth
    |>.withMode (if atomic || c.atomicWrites then .atomic else .truncate)
  c.header.elim g g.withHeader

/-- The name of the file that is looked for where none is given. -/
def defaultFile : Path := ⟨"protomak.yaml"⟩

end Config

/-- The failure with its path and its cause. -/
def Config.Error.message : Config.Error → String
  | .unreadable path fault => "failed to read config '" ++ path.text ++ "': " ++ fault.message
  | .invalid path e => "invalid config '" ++ path.text ++ "': " ++ e.message

namespace Host

variable {H : Type} {m : Type → Type} [Monad m]

/-- Loads a configuration that has to be there. -/
def readConfig (host : Host H m) (path : Path) : m (Except Config.Error Config) := do
  host.report (.loadingConfig path)
  match ← host.readText path with
  | .error fault => return .error (.unreadable path fault)
  | .ok text => return Config.read text path

/-- Loads the configuration that is given, or else the one in a directory, or else none. -/
def discoverConfig (host : Host H m) (given : Option Path) (dir : Path) :
    m (Except Config.Error Config) := do
  match given with
  | some path => host.readConfig path
  | none =>
    let fallback := dir.join Config.defaultFile
    if ← host.isFile fallback then host.readConfig fallback else return .ok {}

end Host

end ProtoScribe

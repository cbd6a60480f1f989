import ProtoScribe.Path
import ProtoScribe.Storage.Fault

/-!
# Why a file was not written

An error names the step that failed, the path that the step was about, and the cause if there is
one.
-/

namespace ProtoScribe

/-- The steps of a write. -/
inductive WriteStep where
  | directory
  | opening
  | encoding
  | transfer
  deriving DecidableEq, Repr, Inhabited

/-- The kind of error that a failed step is. -/
def WriteStep.label : WriteStep → String
  | .directory => "directory creation error"
  | .opening => "file open error"
  | .encoding => "encoding error"
  | .transfer => "i/o error"

/-- A failed write. -/
structure WriteError where
  step : WriteStep
  path : Path
  summary : String
  source : Option StorageFault := none
  deriving DecidableEq, Repr, Inhabited

namespace WriteError

/-- Kind, summary and path. -/
def message (e : WriteError) : String := e.step.label ++ ": " ++ e.summary ++ ": " ++ e.path.text

/-- The directory could not be made. -/
def directory (path : Path) (source : StorageFault) : WriteError :=
  ⟨.directory, path, "failed to create the output directory", some source⟩

/-- The file could not be opened. -/
def opening (path : Path) (source : StorageFault) : WriteError :=
  ⟨.opening, path, "failed to open the output file for writing", some source⟩

/-- The content is no text. -/
def encoding (path : Path) (fault : Utf8.Fault) : WriteError :=
  ⟨.encoding, path, "output content is not valid UTF-8", some (.notText fault)⟩

/-- The content did not get into the file. -/
def transfer (path : Path) (source : StorageFault) : WriteError :=
  ⟨.transfer, path, "failed to write the output buffer to the output file", some source⟩

end WriteError

/-- How content gets into its file. -/
inductive WriteMode where
  /-- The file is emptied and written in place. -/
  | truncate
  /-- A new file is written beside it and takes its place. -/
  | atomic
  deriving DecidableEq, Repr, Inhabited

/-- The name of a mode in reports. -/
def WriteMode.name : WriteMode → String
  | .truncate => "Truncate"
  | .atomic => "Atomic"

end ProtoScribe

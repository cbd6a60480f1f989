import ProtoScribe.Storage.Host

/-!
# Writing files

A file is written under a logical name into a directory. The name and the content are checked
before anything is touched, then the directory is made if it is missing, then the file is written.
A write that truncates may leave a file that is too short; an atomic one leaves the old file or the
new one, and nothing else.
-/

namespace ProtoScribe

/-- What the names of proto files end in. -/
def protoSuffix : String := ".proto"

/-- The file name of a logical name. -/
def protoFileName (name : String) : String :=
  if protoSuffix.toList.isSuffixOf name.toList then name else name ++ protoSuffix

/-- Whether a text is the name of one file. -/
def isFileName (name : String) : Bool :=
  match (Path.mk name).components with
  | [.name _] => true
  | _ => false

namespace Host

variable {H : Type} {m : Type → Type} [Monad m]

/-- Makes sure that a directory is there. -/
def ensureDirectory (host : Host H m) (dir : Path) : ExceptT WriteError m Unit := do
  if ← host.isDirectory dir then return
  if ← host.leads dir then throw (.directory dir .occupied)
  host.report (.creatingDirectory dir)
  attempt (host.makeDirectoryAll dir) (.directory dir)

/-- Empties the target and writes into it. -/
def writeTruncating (host : Host H m) (target : Path) (bytes : List UInt8) :
    ExceptT WriteError m Unit := do
  let file ← attempt (host.create target) (.opening target)
  attempt (host.append file bytes) (.transfer target)
  attempt (host.flush file) (.transfer target)
  attempt (host.sync file) (.transfer target)

/-- Writes an open file and puts it in place of the target. -/
def fillAndRename (host : Host H m) (file : H) (target : Path) (bytes : List UInt8) :
    ExceptT WriteError m Unit := do
  attempt (host.append file bytes) (.transfer target)
  attempt (host.flush file) (.transfer target)
  attempt (host.sync file) (.transfer target)
  attempt (host.rename file target) (.transfer target)

/-- Writes a new file beside the target and puts it in the target's place; a new file that does not
get there is removed. -/
def writeAtomically (host : Host H m) (dir target : Path) (bytes : List UInt8) :
    ExceptT WriteError m Unit := do
  let file ← attempt (host.createTemporary dir) (.opening target)
  tryCatch (host.fillAndRename file target bytes) fun e => do
    host.discard file
    throw e

/-- Writes the target in the given way. -/
def writeFile (host : Host H m) (mode : WriteMode) (dir target : Path) (bytes : List UInt8) :
    ExceptT WriteError m Unit :=
  match mode with
  | .truncate => host.writeTruncating target bytes
  | .atomic => host.writeAtomically dir target bytes

/-- The checks and steps of a write. -/
def persist (host : Host H m) (mode : WriteMode) (fileName : String) (dir target : Path)
    (bytes : List UInt8) : ExceptT WriteError m Unit := do
  if !isFileName fileName then throw (.opening target .notFileName)
  match Utf8.decode bytes with
  | .error fault => throw (.encoding target fault)
  | .ok _ =>
    host.ensureDirectory dir
    host.writeFile mode dir target bytes

/-- Writes bytes under a logical name into a directory, and returns the path of the file. -/
def writeBytes (host : Host H m) (mode : WriteMode) (name : String) (dir : Path)
    (bytes : List UInt8) : m (Except WriteError Path) := do
  let fileName := protoFileName name
  let target := dir.join ⟨fileName⟩
  match ← (host.persist mode fileName dir target bytes).run with
  | .ok () =>
    host.report (.written target bytes.length mode)
    return .ok target
  | .error e =>
    host.report (.notWritten e)
    return .error e

/-- Writes a text under a logical name into a directory, and returns the path of the file. -/
def writeText (host : Host H m) (mode : WriteMode) (name : String) (dir : Path) (text : String) :
    m (Except WriteError Path) :=
  host.writeBytes mode name dir (Utf8.encode text)

end Host

end ProtoScribe

import ProtoScribe.Command.Run

/-!
# The program

The surroundings that the operating system offers, and the entry point.
-/

namespace ProtoScribe.Main

/-- Whether a code is the number of a failure. Some calls report it with its sign turned. -/
def isCode (code : UInt32) (e : Errno) : Bool :=
  code = e.number.toUInt32 || code = 0 - e.number.toUInt32

/-- The failure that the system reports. -/
def errnoOf : IO.Error → Errno
  | .noFileOrDirectory _ _ _ => .notFound
  | .alreadyExists _ _ _ => .alreadyExists
  | .inappropriateType _ code _ => if isCode code .isDirectory then .isDirectory else .notDirectory
  | .resourceExhausted _ _ _ => .noSpace
  | .invalidArgument _ code _ =>
    if isCode code .nameTooLong then .nameTooLong
    else if isCode code .tooManyLinks then .tooManyLinks
    else .invalidArgument
  | _ => .invalidArgument

/-- Does something that may fail. -/
def trying {α : Type} (action : IO α) : IO (Except Errno α) := do
  try
    return .ok (← action)
  catch e =>
    return .error (errnoOf e)

/-- What the system knows of the place that a path leads to. -/
def metadata (p : Path) : IO IO.FS.Metadata := (System.mkFilePath [p.text]).metadata

/-- A file that is open, and where it is. -/
structure OpenFile where
  handle : IO.FS.Handle
  path : String

/-- Opens an empty file whose name is not taken, trying one number after the other. -/
def createFresh (dir : String) : (attempts : Nat) → IO (Except Errno OpenFile)
  | 0 => return .error .alreadyExists
  | attempts + 1 => do
    let path := dir ++ "/" ++ temporaryName attempts
    match ← trying (IO.FS.Handle.mk path .writeNew) with
    | .ok handle => return .ok ⟨handle, path⟩
    | .error .alreadyExists => createFresh dir attempts
    | .error e => return .error e

/-- What the operating system offers. -/
def host : Host OpenFile IO where
  workingDirectory := return ⟨(← IO.currentDir).toString⟩
  isDirectory p := do
    match ← trying (metadata p) with
    | .ok m => return m.type == .dir
    | .error _ => return false
  isFile p := do
    match ← trying (metadata p) with
    | .ok m => return m.type == .file
    | .error _ => return false
  leads p := return (← trying (metadata p)).isOk
  readBytes p := trying (return (← IO.FS.readBinFile p.text).toList)
  makeDirectory p := trying (IO.FS.createDir p.text)
  create p := trying (return ⟨← IO.FS.Handle.mk p.text .write, p.text⟩)
  createTemporary p := createFresh (if p.text = "" then "." else p.text) 65536
  append f bytes := trying (f.handle.write ⟨bytes.toArray⟩)
  flush f := trying f.handle.flush
  sync f := trying f.handle.flush
  rename f p := trying (IO.FS.rename f.path p.text)
  discard f := do
    let _ ← trying (IO.FS.removeFile f.path)
  report e := IO.eprintln e.line

end ProtoScribe.Main

open ProtoScribe in
/-- Runs the program with the words of the command line. -/
def main (words : List String) : IO UInt32 := do
  let outcome ← Command.start Main.host words
  IO.print outcome.output
  return outcome.status.code.toUInt32

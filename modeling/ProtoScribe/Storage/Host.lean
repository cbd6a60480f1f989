import ProtoScribe.Event

/-!
# What a program may ask of its surroundings

Everything that reads or writes is written over these questions and commands, in whatever monad
answers them: the system's for a real run, a state for a file tree in memory.
-/

namespace ProtoScribe

/-- The surroundings of a program; open files are held as an `H`. -/
structure Host (H : Type) (m : Type → Type) where
  workingDirectory : m Path
  /-- Whether a path leads to a directory. -/
  isDirectory : Path → m Bool
  /-- Whether a path leads to a regular file. -/
  isFile : Path → m Bool
  /-- Whether a path leads anywhere. -/
  leads : Path → m Bool
  readBytes : Path → m (Except Errno (List UInt8))
  makeDirectory : Path → m (Except Errno Unit)
  /-- Opens an empty file at a path, where one may have been. -/
  create : Path → m (Except Errno H)
  /-- Opens an empty file under a new name in a directory. -/
  createTemporary : Path → m (Except Errno H)
  append : H → List UInt8 → m (Except Errno Unit)
  flush : H → m (Except Errno Unit)
  /-- Makes sure that what was written lasts. -/
  sync : H → m (Except Errno Unit)
  /-- Puts an open file at a path, in place of what was there. -/
  rename : H → Path → m (Except Errno Unit)
  /-- Removes an open file. -/
  discard : H → m Unit
  report : Event → m Unit

/-- The `n`th name of a new file. -/
def temporaryName (n : Nat) : String :=
  let digits := Nat.toDigits 10 n
  ".protomak-" ++ String.ofList (List.replicate (6 - digits.length) '0' ++ digits) ++ ".tmp"

namespace Host

variable {H : Type} {m : Type → Type} [Monad m]

/-- The surroundings with only those events reported that matter at a verbosity. -/
def listening (host : Host H m) (verbosity : Nat) : Host H m :=
  { host with
    report e := if e.level.isReported verbosity then host.report e else pure () }

/-- Does what may fail, with the error that a failure means. -/
def attempt {α ε : Type} (action : m (Except Errno α)) (error : StorageFault → ε) :
    ExceptT ε m α :=
  ExceptT.mk (do return (← action).mapError fun e => error (.system e))

/-- The text of a file. -/
def readText (host : Host H m) (path : Path) : m (Except StorageFault String) := do
  match ← host.readBytes path with
  | .error e => return .error (.system e)
  | .ok bytes => return (Utf8.decode bytes).mapError fun _ => .unreadable

/-- The outcome of making a directory, where one that is there already will do. -/
def settleDirectory (host : Host H m) (p : Path) : Except Errno Unit → m (Except Errno Unit)
  | .ok () => return .ok ()
  | .error e => do if ← host.isDirectory p then return .ok () else return .error e

/-- Makes the first of some directories, each of which lies in the next. One that cannot be made for
want of the next is tried again after that. -/
def makeDirectories (host : Host H m) : List Path → m (Except Errno Unit)
  | [] => return .error .notFound
  | p :: outer => do
    if p.text = "" then return .ok ()
    match ← host.makeDirectory p with
    | .error .notFound =>
      match ← makeDirectories host outer with
      | .ok () => host.settleDirectory p (← host.makeDirectory p)
      | .error e => return .error e
    | outcome => host.settleDirectory p outcome

/-- Makes a directory, and those around it that are missing. -/
def makeDirectoryAll (host : Host H m) (p : Path) : m (Except Errno Unit) :=
  makeDirectories host (p :: p.parents)

end Host

end ProtoScribe

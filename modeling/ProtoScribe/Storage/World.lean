import ProtoScribe.Storage.Host
import ProtoScribe.Storage.Walk

/-!
# Surroundings in memory

A file tree, a working directory and the events that have been reported. What they answer is what
a file system answers to a user who may do everything.
-/

namespace ProtoScribe

/-- The surroundings of a program as a value. -/
structure World where
  tree : FileTree := default
  cwd : Location := []
  /-- What has been reported, in order. -/
  events : List Event := []

/-- A file that is open: the directory it is in and its name there. -/
structure OpenFile where
  dir : Location
  name : String
  deriving DecidableEq, Repr, Inhabited

/-- Where an open file stands. -/
def OpenFile.location (f : OpenFile) : Location := f.dir ++ [f.name]

/-- The path of a place. -/
def Location.path (l : Location) : Path := ⟨"/" ++ "/".intercalate l⟩

namespace FileTree

/-- The content of the file that a path leads to. A device has none to give. -/
def readBytes (t : FileTree) (cwd : Location) (p : Path) : Except Errno (List UInt8) := do
  match t.get? (← t.follow cwd p) with
  | some (.file content) => return content
  | some .directory => throw .isDirectory
  | some (.device _) => return []
  | _ => throw .notFound

/-- Makes the last step of a path a directory, in one that is there. -/
def makeDirectory (t : FileTree) (cwd : Location) (p : Path) : Except Errno FileTree := do
  match ← t.lastStep cwd p with
  | none => throw .alreadyExists
  | some (dir, name) =>
    if (t.get? (dir ++ [name])).isSome then throw .alreadyExists
    else return t.put dir name .directory

/-- Opens an empty file at a path. A link leads to the file, which may be missing. -/
def create (t : FileTree) (cwd : Location) (p : Path) : Except Errno (OpenFile × FileTree) := do
  match ← t.reach cwd p p.walkSteps with
  | .missing _ _ true => throw .isDirectory
  | .missing dir name false => return (⟨dir, name⟩, t.put dir name (.file []))
  | .place l =>
    match l.getLast?, t.get? l with
    | some name, some (.file _) =>
      return (⟨l.dropLast, name⟩, t.put l.dropLast name (.file []))
    | some name, some (.device _) => return (⟨l.dropLast, name⟩, t)
    | _, _ => throw .isDirectory

/-- The first name of a new file that a directory does not have yet. -/
def freshName? (t : FileTree) (dir : Location) : Option String :=
  ((List.range (t.entries.length + 1)).map temporaryName).find? fun name =>
    (t.get? (dir ++ [name])).isNone

/-- The path of a new file in a directory. It starts at the root, so that it names the file whatever
becomes of the working directory. -/
def temporaryPath (cwd : Location) (p : Path) (name : String) : Path :=
  (cwd.path.join p).join ⟨name⟩

/-- Opens an empty file under a new name in a directory. New names are all of one length, so whether
the path of one is too long depends on the directory alone. -/
def createTemporary (t : FileTree) (cwd : Location) (p : Path) :
    Except Errno (OpenFile × FileTree) := do
  let dir ← if p.text = "" then pure cwd else t.follow cwd p
  if t.get? dir ≠ some .directory then throw .notDirectory
  match t.freshName? dir with
  | none => throw .alreadyExists
  | some name =>
    if pathLimit ≤ (temporaryPath cwd p (temporaryName 0)).text.utf8ByteSize then throw .nameTooLong
    else return (⟨dir, name⟩, t.put dir name (.file []))

/-- Adds bytes to the end of an open file. A full device refuses any byte. -/
def append (t : FileTree) (f : OpenFile) (bytes : List UInt8) : Except Errno FileTree :=
  match t.get? f.location with
  | some (.file content) => .ok (t.put f.dir f.name (.file (content ++ bytes)))
  | some (.device full) => if full ∧ bytes ≠ [] then .error .noSpace else .ok t
  | _ => .error .notFound

/-- Devices cannot be asked to keep what was written. -/
def sync (t : FileTree) (f : OpenFile) : Except Errno Unit :=
  match t.get? f.location with
  | some (.device _) => .error .invalidArgument
  | _ => .ok ()

/-- Puts an open file at a path, in place of what was there; directories stay. -/
def rename (t : FileTree) (cwd : Location) (f : OpenFile) (p : Path) : Except Errno FileTree := do
  match ← t.lastStep cwd p with
  | none => throw .isDirectory
  | some (dir, name) =>
    match t.get? (dir ++ [name]), t.get? f.location with
    | some .directory, _ => throw .isDirectory
    | _, none => throw .notFound
    | _, some e => return (t.remove f.dir f.name).put dir name e

/-- Makes a link. -/
def makeLink (t : FileTree) (cwd : Location) (p target : Path) : Except Errno FileTree := do
  match ← t.lastStep cwd p with
  | none => throw .alreadyExists
  | some (dir, name) =>
    if (t.get? (dir ++ [name])).isSome then throw .alreadyExists
    else return t.put dir name (.link target)

end FileTree

namespace World

/-- Changes the tree, unless that fails. -/
def change {α : Type} (f : World → Except Errno (α × FileTree)) : StateM World (Except Errno α) :=
  fun w =>
    match f w with
    | .ok (a, tree) => (.ok a, { w with tree })
    | .error e => (.error e, w)

/-- The surroundings that a world offers. -/
def host : Host OpenFile (StateM World) where
  workingDirectory := return (← get).cwd.path
  isDirectory p := return (let w := ← get; w.tree.entryAt? w.cwd p = some .directory)
  isFile p := return (let w := ← get
    match w.tree.entryAt? w.cwd p with
    | some (.file _) => true
    | _ => false)
  leads p := return (let w := ← get; (w.tree.entryAt? w.cwd p).isSome)
  readBytes p := return (let w := ← get; w.tree.readBytes w.cwd p)
  makeDirectory p := change fun w => return ((), ← w.tree.makeDirectory w.cwd p)
  create p := change fun w => w.tree.create w.cwd p
  createTemporary p := change fun w => w.tree.createTemporary w.cwd p
  append f bytes := change fun w => return ((), ← w.tree.append f bytes)
  flush _ := return .ok ()
  sync f := return (← get).tree.sync f
  rename f p := change fun w => return ((), ← w.tree.rename w.cwd f p)
  discard f := modify fun w => { w with tree := w.tree.remove f.dir f.name }
  report e := modify fun w => { w with events := w.events ++ [e] }

end World

end ProtoScribe

import ProtoScribe.Storage.Fault
import ProtoScribe.Storage.FileTree

/-!
# Walking along paths

A walk takes one step after the other and follows the links that it comes to, as far as a budget of
links allows. It ends at a place, or at a name that its directory does not hold. A path that the
system does not take is not walked.
-/

namespace ProtoScribe

/-- Where a walk ends. -/
inductive Reached where
  | place (l : Location)
  /-- Nothing has this name; `asDirectory` tells that a slash follows it. -/
  | missing (dir : Location) (name : String) (asDirectory : Bool)
  deriving DecidableEq, Repr, Inhabited

/-- The steps of a path, with an empty one for a slash at its end. -/
def Path.walkSteps (p : Path) : List String := p.steps ++ if p.endsInSlash then [""] else []

/-- The bytes that a name may have. -/
def nameLimit : Nat := 255

/-- The bytes that a path may not have. -/
def pathLimit : Nat := 4096

/-- The links that a walk may follow. -/
def linkLimit : Nat := 40

/-- Why no system call takes the path, if none does. The system would end it at a NUL, so one that
has a NUL is refused before the system is asked. -/
def Path.refusal? (p : Path) : Option Errno :=
  if '\x00' ∈ p.text.toList then some .invalidArgument
  else if pathLimit ≤ p.text.utf8ByteSize then some .nameTooLong
  else none

namespace FileTree

/-- Walks on from `here`, following at most `budget` links. -/
def walk (t : FileTree) (budget : Nat) (here : Location) (steps : List String) :
    Except Errno Reached :=
  match steps with
  | [] => .ok (.place here)
  | s :: rest =>
    if t.get? here ≠ some .directory then .error .notDirectory
    else if s = "" ∨ s = "." then walk t budget here rest
    else if s = ".." then walk t budget here.dropLast rest
    else if nameLimit < s.utf8ByteSize then .error .nameTooLong
    else
      match t.get? (here ++ [s]) with
      | none =>
        if rest = [] then .ok (.missing here s false)
        else if rest = [""] then .ok (.missing here s true)
        else .error .notFound
      | some (.link target) =>
        match budget with
        | 0 => .error .tooManyLinks
        | budget + 1 =>
          walk t budget (if target.isAbsolute then [] else here) (target.walkSteps ++ rest)
      | some _ => walk t budget (here ++ [s]) rest
termination_by (budget, steps.length)

/-- Where a path leads from the working directory `cwd`. -/
def reach (t : FileTree) (cwd : Location) (p : Path) (steps : List String) : Except Errno Reached :=
  if p.text = "" then .error .notFound
  else
    match p.refusal? with
    | some e => .error e
    | none => t.walk linkLimit (if p.isAbsolute then [] else cwd) steps

/-- The place that a path leads to, links followed. -/
def follow (t : FileTree) (cwd : Location) (p : Path) : Except Errno Location := do
  match ← t.reach cwd p p.walkSteps with
  | .place l => return l
  | .missing _ _ _ => throw .notFound

/-- What stands where a path leads, links followed. -/
def entryAt? (t : FileTree) (cwd : Location) (p : Path) : Option Entry :=
  (t.follow cwd p).toOption.bind t.get?

/-- The directory of a path's last step and the name that it has there, if it is a name; a link
there is not followed. -/
def lastStep (t : FileTree) (cwd : Location) (p : Path) :
    Except Errno (Option (Location × String)) := do
  match p.steps.getLast?, ← t.reach cwd p p.steps.dropLast with
  | none, _ => return none
  | some _, .missing _ _ _ => throw .notFound
  | some last, .place dir =>
    if t.get? dir ≠ some .directory then throw .notDirectory
    else if last = "." ∨ last = ".." then return none
    else if nameLimit < last.utf8ByteSize then throw .nameTooLong
    else return some (dir, last)

end FileTree

end ProtoScribe

/-!
# Paths

A path is kept as it was given. Slashes divide it into segments; segments that are empty or a
single dot change nothing, except that a first one says where the path starts. What is left are the
components, and two paths with the same components name the same place.
-/

namespace ProtoScribe

/-- The name of a place in a file system, as it was given. -/
structure Path where
  text : String
  deriving DecidableEq, Repr, Inhabited

namespace Path

/-- A part of a path that counts. -/
inductive Component where
  | root
  /-- The directory that the path starts in, where it says so. -/
  | here
  | up
  | name (s : String)
  deriving DecidableEq, Repr, Inhabited

/-- The pieces of a text between its slashes. -/
def split : List Char → List (List Char)
  | [] => [[]]
  | c :: cs =>
    match split cs with
    | [] => [[c]]
    | s :: ss => if c = '/' then [] :: s :: ss else (c :: s) :: ss

/-- The pieces of the path between its slashes. -/
def segments (p : Path) : List String := (split p.text.toList).map String.ofList

/-- Whether the path starts at the root. -/
def isAbsolute (p : Path) : Bool := p.text.toList.head? = some '/'

/-- Whether a segment changes nothing where it stands. -/
def isIdle (segment : String) : Bool := segment = "" || segment = "."

/-- Whether the path says by a slash at its end that it names a directory. -/
def endsInSlash (p : Path) : Bool := p.text.toList.getLast? = some '/'

/-- The names, dots and double dots that a walk along the path takes. -/
def steps (p : Path) : List String := p.segments.filter (· ≠ "")

/-- What a segment after the first one stands for. -/
def component? (segment : String) : Option Component :=
  if isIdle segment then none else if segment = ".." then some .up else some (.name segment)

/-- The parts of the path that count. -/
def components (p : Path) : List Component :=
  match p.segments with
  | [] => []
  | first :: rest =>
    (if p.isAbsolute then [.root]
      else if first = "." then [.here]
      else (component? first).toList) ++ rest.filterMap component?

/-- The last component, if it is a name. -/
def fileName? (p : Path) : Option String :=
  match p.components.getLast? with
  | some (.name s) => some s
  | _ => none

/-- A file name cut at its last dot, unless that is its first character. -/
def splitAtDot? (name : String) : Option (String × String) :=
  let reversed := name.toList.reverse
  let after := (reversed.takeWhile (· ≠ '.')).reverse
  match (reversed.dropWhile (· ≠ '.')).drop 1 with
  | [] => none
  | before => some (String.ofList before.reverse, String.ofList after)

/-- The file name without its extension. -/
def stem? (p : Path) : Option String :=
  p.fileName?.map fun name => (splitAtDot? name).elim name Prod.fst

/-- What follows the last dot of the file name. -/
def extension? (p : Path) : Option String :=
  p.fileName?.bind fun name => (splitAtDot? name).map Prod.snd

/-- The path of `name` inside the directory; an absolute one stays what it is. -/
def join (p name : Path) : Path :=
  if name.isAbsolute then name
  else if p.text = "" ∨ p.endsInSlash then ⟨p.text ++ name.text⟩
  else ⟨p.text ++ "/" ++ name.text⟩

/-- The path with the given first segment and later segments, the latter in reverse and without the
idle ones at their end. -/
def ofSegments (first : String) (later : List String) : Path :=
  match later.dropWhile isIdle with
  | [] => ⟨if first = "" then "/" else first⟩
  | later => ⟨"/".intercalate (first :: later.reverse)⟩

/-- The paths above one with the given segments, the later ones in reverse. -/
def parentsOf (first : String) : (later : List String) → List Path
  | [] => if first = "" then [] else [⟨""⟩]
  | s :: later =>
    if isIdle s then parentsOf first later else ofSegments first later :: parentsOf first later

/-- The paths of the directories around the path, innermost first. -/
def parents (p : Path) : List Path :=
  match p.segments with
  | [] => []
  | first :: later => parentsOf first later.reverse

end Path

end ProtoScribe

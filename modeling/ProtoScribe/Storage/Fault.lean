import ProtoScribe.Text.Utf8

/-!
# Why storage refuses

The failures of a file system, and those that are found before it is asked.
-/

namespace ProtoScribe

/-- A failure of the file system. -/
inductive Errno where
  | notFound
  | alreadyExists
  | notDirectory
  | isDirectory
  | invalidArgument
  | noSpace
  | nameTooLong
  | tooManyLinks
  deriving DecidableEq, Repr, Inhabited

namespace Errno

/-- The number that systems give the failure. -/
def number : Errno → Nat
  | notFound => 2
  | alreadyExists => 17
  | notDirectory => 20
  | isDirectory => 21
  | invalidArgument => 22
  | noSpace => 28
  | nameTooLong => 36
  | tooManyLinks => 40

/-- The failure in words. -/
def description : Errno → String
  | notFound => "No such file or directory"
  | alreadyExists => "File exists"
  | notDirectory => "Not a directory"
  | isDirectory => "Is a directory"
  | invalidArgument => "Invalid argument"
  | noSpace => "No space left on device"
  | nameTooLong => "File name too long"
  | tooManyLinks => "Too many levels of symbolic links"

/-- The failure in words, with its number. -/
def message (e : Errno) : String :=
  e.description ++ " (os error " ++ toString e.number ++ ")"

end Errno

/-- Why something could not be read or written. -/
inductive StorageFault where
  | system (e : Errno)
  /-- A name that is not the name of one file. -/
  | notFileName
  /-- A place for a directory that something else has. -/
  | occupied
  /-- Bytes to be written that are no text. -/
  | notText (fault : Utf8.Fault)
  /-- Bytes that were read and are no text. -/
  | unreadable
  /-- A cause that someone else has described. -/
  | other (text : String)
  deriving DecidableEq, Repr, Inhabited

/-- The cause in words. -/
def StorageFault.message : StorageFault → String
  | .system e => e.message
  | .notFileName => "logical name must be a single file name inside the output directory"
  | .occupied => "path exists and is not a directory"
  | .notText fault => fault.message
  | .unreadable => "stream did not contain valid UTF-8"
  | .other text => text

end ProtoScribe

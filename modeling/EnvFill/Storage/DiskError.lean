/-!
What stands in the way of a path or of a change on a disk, and the words for it.
-/

namespace EnvFill.Storage

inductive DiskError where
  /-- Nothing is there. -/
  | missing
  /-- Something on the way is not a directory. -/
  | notDirectory
  | tooManyLinks
  /-- A name or a path is longer than any on a disk. -/
  | nameTooLong
  /-- The text has a character with code point zero, so that it is no path at all. -/
  | zeroCharacter
  /-- There is something already. -/
  | alreadyExists
  /-- There is a directory where a file should be. -/
  | isDirectory
  /-- The place can be neither taken away nor replaced. -/
  | busy
  deriving DecidableEq, Repr

def DiskError.message : DiskError → String
  | .missing => "No such file or directory"
  | .notDirectory => "Not a directory"
  | .tooManyLinks => "Too many levels of symbolic links"
  | .nameTooLong => "File name too long"
  | .zeroCharacter => "zero character in a path"
  | .alreadyExists => "File exists"
  | .isDirectory => "Is a directory"
  | .busy => "Device or resource busy"

end EnvFill.Storage

/-!
# What the system refuses

The reasons for which an operation on files or programs fails, with the system's text for each.
-/

namespace Soundstage

/-- A reason of the system. -/
inductive Fault where
  | notFound
  /-- The arguments of a program take more bytes than the system passes on. -/
  | argumentsTooLong
  | denied
  /-- A path that ends in no name has no place that could be taken. -/
  | busy
  | alreadyExists
  | notFolder
  | isFolder
  | nameTooLong
  /-- A name with a NUL character, which no system call can take. -/
  | nulInName
  /-- A NUL character in an argument of a program. -/
  | nulInArgument
  /-- The file's bytes are not UTF-8 text. -/
  | notText
  deriving DecidableEq, Repr

/-- The text of a fault; those that the system itself reports carry its number. -/
def Fault.message : Fault → String
  | .notFound => "No such file or directory (os error 2)"
  | .argumentsTooLong => "Argument list too long (os error 7)"
  | .denied => "Permission denied (os error 13)"
  | .busy => "Device or resource busy (os error 16)"
  | .alreadyExists => "File exists (os error 17)"
  | .notFolder => "Not a directory (os error 20)"
  | .isFolder => "Is a directory (os error 21)"
  | .nameTooLong => "File name too long (os error 36)"
  | .nulInName => "file name contained an unexpected NUL byte"
  | .nulInArgument => "nul byte found in provided data"
  | .notText => "stream did not contain valid UTF-8"

end Soundstage

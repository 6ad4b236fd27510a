import Soundstage.Text.Blank

/-!
# Paths

A path is kept as the text it was given as; it is shown unchanged and only its parts have a meaning.
The parts are what stands between slashes. Empty parts and `.` parts mean nothing, except that an
empty first part makes a path absolute and a first `.` is a part of its own.
-/

namespace Soundstage.Path

/-- The parts of a path between its slashes. -/
def parts (path : String) : List String :=
  (Text.pieces '/' path.toList).map String.ofList

/-- A path that does not start at the working directory. -/
def isAbsolute (path : String) : Bool := path.startsWith "/"

/-- Whether a path ends in a name, which slashes may follow, and not in dots or at the root. -/
def endsInName (path : String) : Bool :=
  match ((parts path).filter (· ≠ "")).getLast? with
  | some part => part ≠ "." && part ≠ ".."
  | none => false

/-- The path with the given parts; absolute paths without further parts are a single slash. -/
def ofParts : List String → String
  | [""] => "/"
  | parts => "/".intercalate parts

/-- Drops meaningless parts at the end, never the first part. -/
def dropTrailing (parts : List String) : List String :=
  match parts with
  | [] => []
  | first :: rest =>
    first :: (rest.reverse.dropWhile fun part => part = "" || part = ".").reverse

/-- The parts of a path, up to the last one that means something. -/
def trimmedParts (path : String) : List String := dropTrailing (parts path)

/-- The last part of a path, if it is a name. -/
def fileName? (path : String) : Option String :=
  match (trimmedParts path).getLast? with
  | some name => if name = "" || name = "." || name = ".." then none else some name
  | none => none

/-- The path of the folder that holds what a path names: the empty path for a single part, and
nothing for the empty path and the root. -/
def parent? (path : String) : Option String :=
  match trimmedParts path with
  | [] => none
  | [only] => if only = "" then none else some ""
  | parts => some (ofParts (dropTrailing parts.dropLast))

/-- A path and the folders on the way to it, outermost last, without the working directory and the
root; `fuel` bounds their count. -/
def ancestorsUpTo : Nat → String → List String
  | 0, _ => []
  | fuel + 1, path =>
    match parent? path with
    | none => []
    | some parent => path :: ancestorsUpTo fuel parent

/-- A path and the folders on the way to it, outermost last. Each has fewer parts than the one
before it. -/
def ancestors (path : String) : List String := ancestorsUpTo (parts path).length path

/-- A path below another one. An absolute path stays as it is. -/
def join (base name : String) : String :=
  if isAbsolute name || base = "" then name
  else if base.endsWith "/" then base ++ name
  else base ++ "/" ++ name

/-- The path with another name in place of its file name, or below it if it has none. -/
def withFileName (path name : String) : String :=
  match fileName? path with
  | some _ => join ((parent? path).getD "") name
  | none => join path name

/-- A path in the same folder whose file name is followed by a suffix. -/
def sibling (path suffix : String) : String :=
  withFileName path ((fileName? path).getD "" ++ suffix)

/-- A file name cut at its last point, unless that is its first character: the stem and, behind the
point, the extension. -/
def splitExtension (name : String) : String × Option String :=
  let behind := name.toList.reverse.takeWhile (· ≠ '.')
  match name.toList.reverse.dropWhile (· ≠ '.') with
  | [] => (name, none)
  | _ :: stem =>
    if stem.isEmpty then (name, none)
    else (String.ofList stem.reverse, some (String.ofList behind.reverse))

end Soundstage.Path

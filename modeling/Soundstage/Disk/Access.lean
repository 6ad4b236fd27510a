import Soundstage.Disk.Route
import Soundstage.Text.Utf8

/-!
# Files and folders by path

What can be done with the file or the folder that a path leads to, and the faults it meets.
-/

namespace Soundstage

namespace Disk

/-- What a path names. -/
def look (disk : Disk) (path : String) : Except Fault Entry := do
  let target ← disk.locate path
  match disk.get? target.place with
  | none => .error .notFound
  | some .folder => .ok .folder
  | some (.file content) => if target.folderOnly then .error .notFolder else .ok (.file content)

/-- Whether a path names a file. -/
def isFile (disk : Disk) (path : String) : Bool :=
  match disk.look path with
  | .ok (.file _) => true
  | _ => false

/-- Whether a path names a folder. -/
def isFolder (disk : Disk) (path : String) : Bool :=
  match disk.look path with
  | .ok .folder => true
  | _ => false

/-- The bytes of a file. -/
def read (disk : Disk) (path : String) : Except Fault ByteArray := do
  match ← disk.look path with
  | .file content => .ok content
  | .folder => .error .isFolder

/-- The text of a file. -/
def readText (disk : Disk) (path : String) : Except Fault String := do
  match Utf8.text? (← disk.read path).data.toList with
  | some text => .ok text
  | none => .error .notText

/-- The place of a file that can be opened for writing, and its content if it exists. -/
def writable (disk : Disk) (path : String) : Except Fault (Place × Option ByteArray) := do
  let target ← disk.locate path
  match disk.get? target.place with
  | some .folder => .error .isFolder
  | some (.file content) =>
    if target.folderOnly then .error .notFolder else .ok (target.place, some content)
  | none => if target.folderOnly then .error .isFolder else .ok (target.place, none)

/-- Writes a file, in place of an older one. -/
def write (disk : Disk) (path : String) (content : ByteArray) : Except Fault Disk := do
  let (place, _) ← disk.writable path
  return disk.put place (.file content)

/-- Makes sure that a file exists: an older one stays, otherwise an empty one is made. -/
def touch (disk : Disk) (path : String) : Except Fault Disk := do
  match ← disk.writable path with
  | (_, some _) => return disk
  | (place, none) => return disk.put place (.file .empty)

/-- Removes a file. -/
def remove (disk : Disk) (path : String) : Except Fault Disk := do
  let target ← disk.locate path
  match disk.get? target.place with
  | none => .error .notFound
  | some .folder => .error .isFolder
  | some (.file _) => if target.folderOnly then .error .notFolder else .ok (disk.erase target.place)

/-- Moves a file to another path, in place of an older file there. -/
def rename (disk : Disk) (source goal : String) : Except Fault Disk := do
  let start ← disk.locate source
  let finish ← disk.locate goal
  if !Path.endsInName goal then .error .busy
  else
    let content ← disk.read source
    if finish.folderOnly then .error .notFolder
    else match disk.get? finish.place with
      | some .folder => .error .isFolder
      | _ => .ok ((disk.erase start.place).put finish.place (.file content))

/-- Makes one folder in an existing one. -/
def makeFolder (disk : Disk) (path : String) : Except Fault Disk := do
  let target ← disk.locate path
  match disk.get? target.place with
  | some _ => .error .alreadyExists
  | none => .ok (disk.put target.place .folder)

/-- Makes folders one after the other, as far as they do not exist, up to the first fault. -/
def makeEach (disk : Disk) : List String → Except Fault Unit × Disk
  | [] => (.ok (), disk)
  | path :: rest =>
    match disk.makeFolder path with
    | .ok disk => makeEach disk rest
    | .error fault =>
      if fault = .alreadyExists && disk.isFolder path then makeEach disk rest
      else (.error fault, disk)

/-- Climbs from a path, whose ancestors are given innermost first, to the first one that exists or
can be made, then makes the ones passed on the way, `passed`, from there. -/
def climb (disk : Disk) (passed : List String) : List String → Except Fault Unit × Disk
  | [] => disk.makeEach passed
  | path :: rest =>
    match disk.makeFolder path with
    | .ok disk => disk.makeEach passed
    | .error .notFound => climb disk (path :: passed) rest
    | .error fault =>
      if fault = .alreadyExists && disk.isFolder path then disk.makeEach passed
      else (.error fault, disk)

/-- Makes a folder and the folders on the way to it. What was made before a fault stays. -/
def makeFolders (disk : Disk) (path : String) : Except Fault Unit × Disk :=
  disk.climb [] (Path.ancestors path)

/-- Whether names do not come behind others, in the order of texts. -/
def inOrder (names others : List String) : Bool :=
  @decide _ (@List.decidableLE String instDecidableEqString String.instLT String.decidableLT names
    others)

/-- The files below the working directory, in the order of the names that lead to them. -/
def files (disk : Disk) : List (String × ByteArray) :=
  ((disk.listing (.above 0)).files.mergeSort fun a b => inOrder a.1 b.1).map
    fun (names, content) => ("/".intercalate names, content)

end Disk

end Soundstage

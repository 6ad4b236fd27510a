import Soundstage.Cli.Program

/-!
# The executable

Brings the files that a task needs onto a `Disk`, runs the program on it, and writes back what has
changed. This executable starts no other programs and has no network, so it compiles scripts of
pauses and sounds whose assets are there.
-/

namespace Soundstage

/-- What the executable finds outside of itself. -/
def offline (key : Option String) : World Unit where
  programs := ⟨fun _ _ => false, fun _ _ _ state => (.error .notFound, state)⟩
  network := fun _ state => (.error ["no network"], state)
  key := key
  process := 0
  workers := 1

/-- Brings a file onto a disk, if it can be read. -/
def bring (disk : Disk) (path : String) : IO Disk := do
  try
    let content ← IO.FS.readBinFile path
    let (_, disk) := disk.makeFolders ((Path.parent? path).getD "")
    return (disk.write path content).toOption.getD disk
  catch _ => return disk

/-- Writes back the files that are new or differ. -/
def writeBack (before after : Disk) : IO Unit := do
  for (path, content) in after.files do
    if !(before.read path).toOption.any (·.data == content.data) then
      match Path.parent? path with
      | none | some "" => pure ()
      | some folder => IO.FS.createDirAll folder
      IO.FS.writeBinFile path content

/-- Runs the program for a command line. -/
def runProgram (arguments : List String) : IO UInt32 := do
  let world := offline (← IO.getEnv "ELEVENLABS_API_KEY")
  let mut disk : Disk := {}
  if let some (.run task) := Cli.Wish.ofArguments? arguments then
    disk ← (Cli.inputs task).foldlM bring disk
    disk ← (Cli.assetFiles world disk task).foldlM bring disk
  let outcome := Cli.run world disk () arguments
  writeBack disk outcome.disk
  IO.print outcome.output
  IO.eprint outcome.errors
  return UInt32.ofNat outcome.status

end Soundstage

/-- The entry point of the executable. -/
def main (arguments : List String) : IO UInt32 := Soundstage.runProgram arguments

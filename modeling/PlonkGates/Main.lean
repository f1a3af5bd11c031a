import PlonkGates.Session

/-!
# The program

Carries out one command line on the real disk. What the command may look at is taken into a `Disk`,
the session runs on that, and what it changed is stored, every file as a whole.
-/

namespace PlonkGates

/-- What stands at a path, if it can be looked at. -/
def entryAt (path : String) : IO (Option DiskEntry) := do
  try
    let _ ← IO.FS.realPath (path ++ "/.")
    return some .directory
  catch _ =>
    try
      let bytes ← IO.FS.readBinFile path
      return some (.file bytes.toList)
    catch _ => return none

/-- A disk with what stands at the given paths and above them. -/
def snapshot (paths : List Path) : IO Disk := do
  let mut disk := Disk.empty
  for p in paths.flatMap Path.ancestors do
    if let some entry ← entryAt p.text.toText then
      disk := disk.put (Disk.keyOf p) entry
  return disk

/-- Writes a file under a temporary name and moves it into place. -/
def storeFile (path : String) (bytes : List UInt8) : IO Unit := do
  let temporary := path ++ ".part"
  try
    IO.FS.writeBinFile temporary ⟨bytes.toArray⟩
    IO.FS.rename temporary path
  catch error =>
    try IO.FS.removeFile temporary catch _ => pure ()
    throw error

/-- Stores what one disk holds and another one does not. Names have to be texts here. -/
def store (old new : Disk) : IO Unit := do
  for (key, entry) in new.tree.entries do
    unless old.get? key = some entry do
      match Disk.keyText? key, entry with
      | some path, .directory => IO.FS.createDirAll path
      | some path, .file bytes => storeFile path bytes
      | none, _ => throw (.userError "a name is not a text")

/-- The paths that a command reads. -/
def sources (i : Invocation) : List Path :=
  (i.config.toList ++ [i.circuit]).map Path.ofText

/-- The path that a command writes, if its settings can be read from the disk. -/
def destination? (disk : Disk) (i : Invocation) : Option Path := do
  let settings ← (Session.settingsOf .reliable disk i).toOption
  (Session.listingTarget settings i.circuit i.output).toOption

/-- A disk with all that a command line is about. -/
def relevantDisk (arguments : List String) : IO Disk := do
  match Invocation.parse arguments with
  | .error _ => return .empty
  | .ok i =>
    let disk ← snapshot (sources i)
    snapshot (sources i ++ (destination? disk i).toList)

/-- Carries out a command line and returns its exit status. -/
def carryOutOnDisk (arguments : List String) : IO UInt32 := do
  let disk ← relevantDisk arguments
  let start ← IO.currentDir
  let env : Environment := { Environment.reliable with start := .ofText start.toString }
  let outcome := Session.run env ⟨disk, .unconfigured⟩ arguments
  for record in outcome.records do
    IO.eprintln record.toText
  store disk outcome.session.disk
  IO.print outcome.stdout
  IO.eprint outcome.complaint
  match outcome.status with
  | .ok status => return status.toUInt32
  | .error fault =>
    IO.eprintln fault.message
    return 1

end PlonkGates

def main (arguments : List String) : IO UInt32 := do
  try PlonkGates.carryOutOnDisk arguments
  catch error =>
    IO.eprintln ("error: " ++ toString error)
    return PlonkGates.Session.exitError.toUInt32

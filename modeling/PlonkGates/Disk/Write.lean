import PlonkGates.Disk.Basic
import PlonkGates.Json.Writer
import PlonkGates.Text.Utf8

/-!
# Writing a file as a whole

A file is written under a temporary name in the directory of its path and then moved into place, so
that the path holds the old content or all of the new one. If any step fails, the temporary file is
removed again. Directories that are missing on the way to the path are made first, and stay.

Every operation returns the disk that it leaves behind, also when it fails.
-/

namespace PlonkGates

namespace Disk

open Text (CodePoints)

/-! ## Directories -/

/-- Makes the directory at a path; its parent has to be there, and nothing may be in its place. -/
def makeDirectory (env : Environment) (d : Disk) (p : Path) (again : Bool) :
    Disk × Except DiskError Unit :=
  match env.failure (.makeDirectory p again) with
  | some error => (d, .error error)
  | none => match d.locate p with
    | .error error => (d, .error error)
    | .ok place =>
      if place.entry.isSome then (d, .error .fileExists)
      else (d.put place.key .directory, .ok ())

/-- An error while making a directory does not matter if the directory is there. That something was
not found always does. -/
def excuse (p : Path) : Disk × Except DiskError Unit → Disk × Except Fault Unit
  | (d, .ok ()) => (d, .ok ())
  | (d, .error error) =>
    if error ≠ .notFound ∧ d.isDirectory p then (d, .ok ())
    else (d, .error (.disk ⟨error, p.text, none⟩))

/--
Makes the directory with the given names below a root, the last name first, and before it those that
are missing on the way to it. Only so many directories may wait for one above them.
-/
def ensureDirectory (env : Environment) (d : Disk) (root : String) :
    Nat → List CodePoints → Disk × Except Fault Unit
  | 0, _ => (d, .error (.tooDeep .stepping))
  | _ + 1, [] => excuse ⟨root, []⟩ (d.makeDirectory env ⟨root, []⟩ false)
  | waiting + 1, name :: above =>
    let p : Path := ⟨root, (name :: above).reverse⟩
    match d.makeDirectory env p false with
    | (d, .error .notFound) => match ensureDirectory env d root waiting above with
      | (d, .error fault) => (d, .error fault)
      | (d, .ok ()) => excuse p (d.makeDirectory env p true)
    | result => excuse p result

/-! ## Files -/

/-- A name that starts with `base` and is longer than all names in a directory, so it is free. -/
def freshName (directory : DiskTree) (base : CodePoints) : CodePoints :=
  let longest := (directory.names.map List.length).foldl max 8
  base.append (.ofChars (List.replicate (longest + 1) '_'))

/-- How many bytes a temporary name is longer than the name it stands for. -/
def temporarySuffixLength : Nat := 8

/-- Makes an empty file with a fresh name in a directory. -/
def makeTemporary (env : Environment) (d : Disk) (directory : Path) (base : CodePoints) :
    Disk × Except Fault (DiskKey × Path) :=
  let failed (error : DiskError) : Disk × Except Fault (DiskKey × Path) :=
    (d, .error (.disk ⟨error, (directory.child base).text, none⟩))
  match env.failure (.makeTemporary directory) with
  | some error => failed error
  | none => match d.locate directory with
    | .error error => failed error
    | .ok place =>
      if base.encode.length + temporarySuffixLength > maxNameLength then failed .nameTooLong
      else
        let name := freshName place.below base
        let key := place.key ++ [name.encode]
        (d.put key (.file []), .ok (key, directory.child name))

/-- Moves a file to a path, in place of the file that may be there. -/
def replace (env : Environment) (d : Disk) (key : DiskKey) (source target : Path)
    (bytes : List UInt8) : Disk × Except Fault Unit :=
  let failed (error : DiskError) : Disk × Except Fault Unit :=
    (d, .error (.disk ⟨error, source.text, some target.text⟩))
  if target.name.encode = [] ∨ target.name.encode = upName then failed .busy
  else match env.failure (.replace target) with
    | some error => failed error
    | none => match d.locate target with
      | .error error => failed error
      | .ok place => match place.entry with
        | some .directory => failed .isDirectory
        | _ => ((d.erase key).put place.key (.file bytes), .ok ())

/-- Writes content to a temporary file and moves it into place. -/
def fillAndMove (env : Environment) (d : Disk) (key : DiskKey) (temporary target : Path)
    (content : Except Fault String) : Disk × Except Fault Unit :=
  match content with
  | .error fault => (d, .error fault)
  | .ok text =>
    let bytes := Text.encodeUtf8 text.toList
    match env.failure (.write target) with
    | some error =>
      (d.put key (.file (bytes.take env.written)),
        .error (.disk ⟨error, temporary.text, none⟩))
    | none => (d.put key (.file bytes)).replace env key temporary target bytes

/-- How many steps enclose the making of directories and are inside of it. -/
def stepsAroundDirectories : Nat := 6

/-- The fault of a path that cannot be handed to the disk. What cannot be encoded comes first. -/
def pathFault? (barrier : Option Text.SurrogateRun) (p : Path) : Option Fault :=
  match barrier with
  | some run => some (.unencodable run)
  | none => if p.holdsNul then some .nulInPath else none

/-- Writes the file at a path as a whole, in steps that are nested up to a depth. -/
def writeWhole (env : Environment) (d : Disk) (depth : Nat) (target : Path)
    (content : Except Fault String) : Disk × Except Fault Unit :=
  let directory := target.parent
  let waiting := depth - stepsAroundDirectories
  match pathFault? directory.text.barrier? directory with
  | some fault => (d, .error fault)
  | none => match ensureDirectory env d directory.root waiting directory.parts.reverse with
    | (d, .error fault) => (d, .error fault)
    | (d, .ok ()) => match pathFault? (target.nameBarrier? env.start) target with
      | some fault => (d, .error fault)
      | none => match d.makeTemporary env directory target.name with
        | (d, .error fault) => (d, .error fault)
        | (d, .ok (key, temporary)) => match d.fillAndMove env key temporary target content with
          | (d, .ok ()) => (d, .ok ())
          | (d, .error fault) => (d.erase key, .error fault)

/-- Writes a value as JSON to the file at a path, in steps that are nested up to a depth. -/
def writeJson (env : Environment) (d : Disk) (depth : Nat) (target : Path) (indent : Option Nat)
    (v : Value) : Disk × Except Fault Unit :=
  d.writeWhole env depth target (Json.document depth indent v)

end Disk

end PlonkGates

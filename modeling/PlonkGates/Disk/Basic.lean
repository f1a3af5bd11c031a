import PlonkGates.Disk.Path
import PlonkGates.Disk.Tree
import PlonkGates.Fault

/-!
# Disks

A disk holds files and directories under a working directory. A key tells an entry by the names on
the way to it, without dots; what lies outside the working directory starts with `..` or with `/`.

Every step on a disk may also fail for reasons of its own: no space, no permission, a broken device.
An `Environment` says which steps do, how deep the steps of a command may be nested, and what can be
printed; in the reliable one no step fails.
-/

namespace PlonkGates

structure Disk where
  tree : DiskTree
deriving DecidableEq, Repr

/-- The steps on a disk, each with the path that it is about. -/
inductive DiskStep where
  | read (path : Path)
  /-- A directory is tried once more when those above it have been made. -/
  | makeDirectory (path : Path) (again : Bool)
  | makeTemporary (directory : Path)
  | write (target : Path)
  | replace (target : Path)
deriving DecidableEq, Repr

/-- The least depth of steps that every command gets by with, on values that are not nested. -/
def leastDepth : Nat := 16

/-- What a command finds outside of the program: which steps fail, and what there is room for. -/
structure Environment where
  failure : DiskStep → Option DiskError
  /-- How many bytes are written by a write that fails. -/
  written : Nat
  /-- The absolute path of the working directory. -/
  start : Path
  /-- How deep the steps of a command may be nested. -/
  depth : Nat
  leastDepth_le : leastDepth ≤ depth
  /-- Whether what is printed has to be text. If not, a surrogate that stands for a byte is printed
  as this byte. -/
  printsText : Bool

/-- An environment where no step fails, in a directory of its own. -/
def Environment.reliable : Environment where
  failure := fun _ => none
  written := 0
  start := .ofText "/tmp/plonk-gates"
  depth := 993
  leastDepth_le := by decide
  printsText := true

namespace Disk

def empty : Disk := ⟨.bare⟩

/-! ## Entries -/

/-- The name of the root in a key. -/
def rootName : DiskName := [0x2f]

/-- The name of the directory above. -/
def upName : DiskName := [0x2e, 0x2e]

/-- Keys of directories that are always there: the working directory, those above it, the root. -/
def isBase (key : DiskKey) : Bool := key == [rootName] || key.all (· == upName)

def get? (d : Disk) (key : DiskKey) : Option DiskEntry :=
  if isBase key then some .directory else d.tree.get? key

/-- Sets an entry in place of the one that may be there. -/
def put (d : Disk) (key : DiskKey) (entry : DiskEntry) : Disk := ⟨d.tree.put (some entry) key⟩

def erase (d : Disk) (key : DiskKey) : Disk := ⟨d.tree.put none key⟩

/-! ## Paths -/

/-- The longest name of an entry, in bytes. -/
def maxNameLength : Nat := 255

/-- The longest path, in bytes. -/
def maxPathLength : Nat := 4095

/-- The directory above the one that the names in `back` lead to, the last of them first. -/
def above (back : DiskKey) : DiskKey :=
  if back == [rootName] then back else if isBase back then upName :: back else back.tail

/-- A place on the way through a disk. -/
structure Walk where
  /-- The names that lead to the place, the last of them first. -/
  back : DiskKey
  entry : Option DiskEntry
  below : DiskTree

namespace Walk

def key (w : Walk) : DiskKey := w.back.reverse

/-- The place that a key leads to. -/
def ofKey (d : Disk) (key : DiskKey) : Walk := ⟨key.reverse, d.get? key, d.tree.subtree key⟩

/-- Goes on to a name. -/
def onTo (d : Disk) (w : Walk) (name : DiskName) : Walk :=
  if name = upName then ofKey d (above w.back).reverse
  else
    let (entry, below) := w.below.child name
    ⟨name :: w.back, entry, below⟩

end Walk

/-- Follows names from a place on. Every entry that is passed has to be a directory. -/
def follow (d : Disk) (w : Walk) : List DiskName → Except DiskError Walk
  | [] => .ok w
  | name :: rest => match w.entry with
    | none => .error .notFound
    | some (.file _) => .error .notDirectory
    | some .directory =>
      if name.length > maxNameLength then .error .nameTooLong
      else follow d (w.onTo d name) rest

/-- The key that names lead to if every directory on the way is there. -/
def keyFrom (key : DiskKey) (names : List DiskName) : DiskKey :=
  (names.foldl (fun back name => if name = upName then above back else name :: back)
    key.reverse).reverse

/-- The key of the place where a path starts. -/
def startKey (p : Path) : DiskKey := if p.root.isEmpty then [] else [rootName]

/-- The names of a path as they are on a disk. -/
def namesOf (p : Path) : List DiskName := p.parts.map (·.encode)

/-- The key that a path leads to. -/
def keyOf (p : Path) : DiskKey := keyFrom (startKey p) (namesOf p)

/-- The text of a path that leads to a key, if the names are texts. -/
def keyText? (key : DiskKey) : Option String := do
  let names ← key.mapM fun name => (Text.decodeUtf8 name).toOption.map String.ofList
  match names with
  | "/" :: below => some ("/" ++ "/".intercalate below)
  | names => some ("/".intercalate names)

/-- The place of a path. The entry itself need not be there, the directory that holds it must. -/
def locate (d : Disk) (p : Path) : Except DiskError Walk :=
  if p.byteSize > maxPathLength then .error .nameTooLong
  else d.follow (.ofKey d (startKey p)) (namesOf p)

/-- The entry at a path. -/
def find (d : Disk) (p : Path) : Except DiskError DiskEntry := do
  match (← d.locate p).entry with
  | some entry => .ok entry
  | none => .error .notFound

/-- A directory stands at the path. -/
def isDirectory (d : Disk) (p : Path) : Bool :=
  match d.find p with
  | .ok .directory => true
  | _ => false

/-- Whether something stands at a path. That a name is too long is an error, not an answer. -/
def holds (d : Disk) (p : Path) : Except Fault Bool :=
  if p.holdsNul then .ok false
  else match d.find p with
    | .ok _ => .ok true
    | .error .nameTooLong => .error (.disk ⟨.nameTooLong, p.text, none⟩)
    | .error _ => .ok false

/-- The content of the file at a path. -/
def read (env : Environment) (d : Disk) (p : Path) : Except Fault (List UInt8) :=
  let failed (error : DiskError) : Except Fault (List UInt8) :=
    .error (.disk ⟨error, p.text, none⟩)
  if p.holdsNul then .error .nulInPath
  else match env.failure (.read p) with
    | some error => failed error
    | none => match d.find p with
      | .ok (.file bytes) => .ok bytes
      | .ok .directory => failed .isDirectory
      | .error error => failed error

/-! ## Filling a disk -/

/-- Adds the directories above a key. -/
def putParents (d : Disk) (key : DiskKey) : Disk :=
  (List.range key.length).foldl
    (fun d n => if (d.get? (key.take n)).isSome then d else d.put (key.take n) .directory) d

/-- A disk with a file at a path, and the directories on the way to it. -/
def withFile (d : Disk) (p : Path) (bytes : List UInt8) : Disk :=
  (d.putParents (keyOf p)).put (keyOf p) (.file bytes)

/-- A disk with a directory at a path, and the directories on the way to it. -/
def withDirectory (d : Disk) (p : Path) : Disk :=
  (d.putParents (keyOf p)).put (keyOf p) .directory

/-- The files under the working directory of a disk that an older one does not hold as they are. -/
def changes (old new : Disk) : List (DiskKey × List UInt8) :=
  new.tree.entries.filterMap fun (key, entry) => match entry with
    | .file bytes =>
      if key.head? = some upName ∨ key.head? = some rootName ∨ old.get? key = some entry then none
      else some (key, bytes)
    | .directory => none

end Disk

end PlonkGates

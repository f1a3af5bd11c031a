import PlonkGates.Text.CodePoints

/-!
# Paths

A path is a root and the names between its slashes. Empty names and single dots fall away; double
dots stay, because what they lead to depends on the disk. Two slashes at the start are a root of
their own, more than two are one. Names are texts by their code points; on a disk they are the bytes
that these are encoded as.
-/

namespace PlonkGates

open Text (CodePoints)

structure Path where
  /-- Empty for a path that starts at the working directory. -/
  root : String
  parts : List CodePoints
deriving DecidableEq, Repr

namespace Path

/-- The code point of a slash. -/
def slash : Nat := '/'.toNat

/-- The code point of a dot. -/
def dot : Nat := '.'.toNat

/-- The name that leads back to the directory above. -/
def dots : CodePoints := ⟨[dot, dot]⟩

/-- The pieces of a text between slashes. -/
def pieces : List Nat → List (List Nat)
  | [] => [[]]
  | n :: rest => match pieces rest with
    | [] => [[n]]
    | piece :: others => if n = slash then [] :: piece :: others else (n :: piece) :: others

/-- The names in a text. -/
def names (points : List Nat) : List (List Nat) :=
  (pieces points).filter fun piece => !piece.isEmpty && piece != [dot]

/-- The root that a text starts with. -/
def rootOf (points : List Nat) : String :=
  match (points.takeWhile (· == slash)).length with
  | 0 => ""
  | 2 => "//"
  | _ => "/"

def ofPoints (t : CodePoints) : Path where
  root := rootOf t.points
  parts := (names t.points).map CodePoints.mk

def ofText (s : String) : Path := ofPoints (.ofText s)

/-- The names with slashes between them. -/
def joined (parts : List CodePoints) : CodePoints := ⟨[slash].intercalate (parts.map (·.points))⟩

def text (p : Path) : CodePoints :=
  if p.parts.isEmpty && p.root.isEmpty then ⟨[dot]⟩
  else (CodePoints.ofText p.root).append (joined p.parts)

/-- The number of bytes of the text of a path. -/
def byteSize (p : Path) : Nat := p.text.encode.length

/-- The path of the directory that holds the last name; the start of a path is its own parent. -/
def parent (p : Path) : Path := { p with parts := p.parts.dropLast }

/-- The path itself and all paths above it, the shortest first. -/
def ancestors (p : Path) : List Path :=
  (List.range (p.parts.length + 1)).map fun n => { p with parts := p.parts.take n }

/-- The last name, empty at the start of a path. -/
def name (p : Path) : CodePoints := p.parts.getLast?.getD ⟨[]⟩

def child (p : Path) (name : CodePoints) : Path := { p with parts := p.parts ++ [name] }

/-- Names with every double dot taken back together with the name before it. -/
def folded (parts : List CodePoints) : List CodePoints :=
  (parts.foldl (fun back name => if name = dots then back.tail else name :: back) []).reverse

/-- The absolute path without double dots, for a working directory at `start`. -/
def absolute (p start : Path) : Path :=
  if p.root.isEmpty then ⟨start.root, folded (start.parts ++ p.parts)⟩
  else ⟨p.root, folded p.parts⟩

/-- How many code points of the text of a path below this one come before the next name. -/
def nameOffset (p : Path) : Nat :=
  p.parts.foldl (fun offset part => offset + part.length + 1) p.root.length

/-- No path on a disk holds the character NUL. -/
def holdsNul (p : Path) : Bool := p.parts.any fun part => part.points.contains 0

/-- What cannot be encoded in the last name, by its position in the absolute path. -/
def nameBarrier? (p start : Path) : Option Text.SurrogateRun :=
  p.name.barrier?.map (·.shift (p.parent.absolute start).nameOffset)

end Path

end PlonkGates

/-!
# Line ends

A text file may end its lines with a line feed, a carriage return, or a carriage return followed by
a line feed; all three are read as one line feed.
-/

namespace PlonkGates.Text

/-- Every carriage return, with the line feed after it if there is one, becomes a line feed. -/
def unifyNewlines : List Char → List Char
  | '\r' :: '\n' :: cs => '\n' :: unifyNewlines cs
  | '\r' :: cs => '\n' :: unifyNewlines cs
  | c :: cs => c :: unifyNewlines cs
  | [] => []

/-- The part of a text after its last line feed. -/
def lastLine (cs : List Char) : List Char := (cs.reverse.takeWhile (· ≠ '\n')).reverse

/-- The part of a text before its first line feed. -/
def firstLine (cs : List Char) : List Char := cs.takeWhile (· ≠ '\n')

/-- The parts of a text between its line feeds. -/
def lines : List Char → List (List Char)
  | [] => [[]]
  | c :: cs =>
    if c = '\n' then [] :: lines cs
    else match lines cs with
      | [] => [[c]]
      | line :: rest => (c :: line) :: rest

/-- The lines of a text that are not empty. -/
def filledLines (s : String) : List String :=
  ((lines s.toList).filter (!·.isEmpty)).map String.ofList

/--
How many columns a text takes when tabs run to the next multiple of eight. A carriage return takes a
column like any other character and starts the count of tab stops anew.
-/
def tabbedWidth (column : Nat) : List Char → Nat
  | [] => 0
  | c :: cs =>
    if c = '\t' then (8 - column % 8) + tabbedWidth (column + (8 - column % 8)) cs
    else if c = '\r' ∨ c = '\n' then 1 + tabbedWidth 0 cs
    else 1 + tabbedWidth (column + 1) cs

end PlonkGates.Text

import PlonkGates.Fault

/-!
# Writing JSON

Texts keep every character except the quotation mark, the backslash and the controls below the
space, which are written as escapes. With an indentation, every item has a line of its own;
without, all is on one line. Integers of too many digits are turned down. A surrogate is replaced;
there is none in a listing.
-/

namespace PlonkGates.Json

open Text (backslash quotationMark)

def escapeChar (c : Char) : List Char :=
  if c = quotationMark ∨ c = backslash then [backslash, c]
  else if c = '\n' then [backslash, 'n']
  else if c = '\r' then [backslash, 'r']
  else if c = '\t' then [backslash, 't']
  else if c = '\x08' then [backslash, 'b']
  else if c = '\x0c' then [backslash, 'f']
  else if c.toNat < 0x20 then backslash :: 'u' :: Text.hexDigits 4 c.toNat
  else [c]

/-- A text between quotation marks. -/
def string (s : String) : String :=
  String.ofList (quotationMark :: s.toList.flatMap escapeChar ++ [quotationMark])

/-- The break before an item at some depth: a new line with its indentation, or nothing. -/
def lineBreak (indent : Option Nat) (depth : Nat) : String :=
  match indent with
  | some width => String.ofList ('\n' :: List.replicate (width * depth) ' ')
  | none => ""

/-- What stands between two items. -/
def separator (indent : Option Nat) (depth : Nat) : String :=
  match indent with
  | some _ => "," ++ lineBreak indent depth
  | none => ", "

/-- What is no finite number has a word of its own. -/
def real : Double → String
  | .nan => "NaN"
  | .infinity negative => if negative then "-Infinity" else "Infinity"
  | x => x.toText

mutual

/-- The pieces of the text of a value whose items stand at depth `depth + 1`. -/
def render (indent : Option Nat) (depth : Nat) : Value → Except Fault (List String)
  | .null => .ok ["null"]
  | .bool b => .ok [if b then "true" else "false"]
  | .int z => (Text.writeInteger z).map ([·])
  | .real x => .ok [real x]
  | .text s => .ok [string s]
  | .codePoints t => .ok [string t.toText]
  | .element x => .ok [string x.toText]
  | .list [] => .ok ["[]"]
  | .list (v :: vs) => do
    let first ← render indent (depth + 1) v
    let rest ← renderItems indent (depth + 1) vs
    .ok ("[" :: lineBreak indent (depth + 1) :: first ++ rest ++ [lineBreak indent depth, "]"])
  | .object [] => .ok ["\x7b\x7d"]
  | .object ((k, v) :: entries) => do
    let first ← render indent (depth + 1) v
    let rest ← renderEntries indent (depth + 1) entries
    .ok ("\x7b" :: lineBreak indent (depth + 1) :: string k.toText :: ": " :: first ++ rest ++
      [lineBreak indent depth, "\x7d"])

/-- The items of a list after the first one, each after a separator. -/
def renderItems (indent : Option Nat) (depth : Nat) : List Value → Except Fault (List String)
  | [] => .ok []
  | v :: vs => do
    let first ← render indent depth v
    let rest ← renderItems indent depth vs
    .ok (separator indent depth :: first ++ rest)

/-- The entries of an object after the first one, each after a separator. -/
def renderEntries (indent : Option Nat) (depth : Nat) :
    List (Text.CodePoints × Value) → Except Fault (List String)
  | [] => .ok []
  | (k, v) :: entries => do
    let first ← render indent depth v
    let rest ← renderEntries indent depth entries
    .ok (separator indent depth :: string k.toText :: ": " :: first ++ rest)

end

/-- The text of a value. -/
def toText (indent : Option Nat) (v : Value) : Except Fault String :=
  (render indent 0 v).map String.join

/-! ## Nesting -/

mutual

/-- How deep the steps are nested that write a value. An empty container is written in one. -/
def nesting : Value → Nat
  | .real _ => 1
  | .list (v :: vs) => 1 + max (nesting v) (nestingItems vs)
  | .object ((_, v) :: entries) => 1 + max (nesting v) (nestingEntries entries)
  | _ => 0

def nestingItems : List Value → Nat
  | [] => 0
  | v :: vs => max (nesting v) (nestingItems vs)

def nestingEntries : List (Text.CodePoints × Value) → Nat
  | [] => 0
  | (_, v) :: entries => max (nesting v) (nestingEntries entries)

end

/-! ## Files -/

/-- How many steps enclose the writing of a value. -/
def stepsOutside : Nat := 4

/-- The text of a file that holds a value, written by steps that are nested up to a depth. -/
def document (depth : Nat) (indent : Option Nat) (v : Value) : Except Fault String :=
  if depth < stepsOutside + nesting v then .error (.tooDeep .stepping)
  else (toText indent v).map (· ++ "\n")

end PlonkGates.Json

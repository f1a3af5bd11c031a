import PlonkGates.Text.Numeral

/-!
# Lexemes of a program

A program is cut into lexemes from left to right, each as long as possible: runs of digits, words,
runs of line feeds, and single signs. Blanks and comments fall away. What starts no lexeme is kept
as a stray character, so that nothing of the text is lost before it is judged.

The cutting reads one character after the other; `Mode` is what is still open.
-/

namespace PlonkGates

/-- A place in a text: characters before it, and its line and column counted from one. -/
structure Cursor where
  offset : Nat
  line : Nat
  column : Nat
deriving DecidableEq, Repr

namespace Cursor

def start : Cursor := ⟨0, 1, 1⟩

/-- The place after a character. Only a line feed starts a new line. -/
def next (place : Cursor) (c : Char) : Cursor :=
  if c = '\n' then ⟨place.offset + 1, place.line + 1, 1⟩
  else ⟨place.offset + 1, place.line, place.column + 1⟩

end Cursor

/-- The kinds of lexemes. -/
inductive LexemeKind where
  | sign
  | digits
  | word
  | newlines
  | semicolon
  | equals
  | star
  /-- The digit that is a whole right side; it is cut off from a run of digits only there. -/
  | zero
  /-- A character that starts no lexeme. -/
  | stray
deriving DecidableEq, Repr

structure Lexeme where
  kind : LexemeKind
  text : List Char
  start : Cursor
deriving DecidableEq, Repr

namespace Lexeme

def isLetter (c : Char) : Bool :=
  (0x41 ≤ c.toNat && c.toNat ≤ 0x5a) || (0x61 ≤ c.toNat && c.toNat ≤ 0x7a) || c == '_'

def isWordChar (c : Char) : Bool := isLetter c || Text.isAsciiDigit c

/-- Space, tab, form feed and carriage return separate lexemes and are not part of any. -/
def isGap (c : Char) : Bool := c == ' ' || c == '\t' || c == '\x0c' || c == '\r'

/-- The kind of the lexeme that starts with a character that is neither a gap nor a comment. -/
def kindOf (c : Char) : LexemeKind :=
  if c = '+' ∨ c = '-' then .sign
  else if c = '\n' then .newlines
  else if c = ';' then .semicolon
  else if c = '=' then .equals
  else if c = '*' then .star
  else if Text.isAsciiDigit c then .digits
  else if isLetter c then .word
  else .stray

end Lexeme

/-- Whether a lexeme of this kind may go on with a character. -/
def LexemeKind.continues : LexemeKind → Char → Bool
  | digits, c => Text.isAsciiDigit c
  | word, c => Lexeme.isWordChar c
  | newlines, c => c == '\n'
  | _, _ => false

/-- What is open while a text is cut. -/
inductive Mode where
  | idle
  | comment
  /-- A lexeme with the characters read so far, the last one first. -/
  | inside (kind : LexemeKind) (reversed : List Char) (start : Cursor)

namespace Mode

/-- Whether a character belongs to what is open. -/
def accepts : Mode → Char → Bool
  | idle, _ => false
  | comment, c => c != '\n'
  | inside kind _ _, c => kind.continues c

def push : Mode → Char → Mode
  | inside kind reversed start, c => inside kind (c :: reversed) start
  | mode, _ => mode

/-- What a character opens. -/
def opening (c : Char) (place : Cursor) : Mode :=
  if Lexeme.isGap c then idle
  else if c = '#' then comment
  else inside (Lexeme.kindOf c) [c] place

/-- The lexeme that is complete when nothing is added any more. -/
def close : Mode → List Lexeme
  | inside kind reversed start => [⟨kind, reversed.reverse, start⟩]
  | _ => []

end Mode

namespace Lexeme

/-- The lexemes of a text that is read in a mode at a place. -/
def cutFrom (mode : Mode) (place : Cursor) : List Char → List Lexeme
  | [] => mode.close
  | c :: cs =>
    if mode.accepts c then cutFrom (mode.push c) (place.next c) cs
    else mode.close ++ cutFrom (Mode.opening c place) (place.next c) cs

/-- The lexemes of a whole text. -/
def cut (text : List Char) : List Lexeme := cutFrom .idle .start text

end Lexeme

end PlonkGates

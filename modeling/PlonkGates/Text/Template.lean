import PlonkGates.Limits
import PlonkGates.Text.Place

/-!
# Templates

A text may hold places for values. A place starts with a percent sign; flags, a width, a precision
and a size may follow, and a letter ends it and says how the value is shown. Two percent signs in a
row stand for one. A width or a precision may also be an asterisk, which takes a value of its own.

Here one natural number is put into a template: every place needs a value, and the value needs a
place. The template is read from left to right, one character at a time, so the repetition of a text
need never be written out.
-/

namespace PlonkGates.Text

/-- Why a number cannot be put into a template. -/
inductive TemplateFault where
  /-- The template ends inside a place. -/
  | incomplete
  /-- A place asks for a value by its name. -/
  | namedPlace
  | valueMissing
  | valueUnused
  | unknownLetter (c : Char) (index : Nat)
  | widthTooBig
  | precisionTooBig
  /-- An integer with as many digits as the precision says has no room. -/
  | precisionTooLarge
  /-- The value is no width. -/
  | widthRange
  /-- The value is no precision. -/
  | precisionRange
  /-- The value is no character. -/
  | characterRange
  /-- The value is too large for a number of double precision. -/
  | doubleRange
  /-- There is no memory for the width. -/
  | noMemory
deriving DecidableEq, Repr

namespace TemplateFault

/-- A character of a template in a message: those that cannot be shown there are replaced. -/
def shown (c : Char) : Char := if 31 ≤ c.toNat ∧ c.toNat ≤ 126 then c else '?'

def message : TemplateFault → String
  | incomplete => "incomplete format"
  | namedPlace => "format requires a mapping"
  | valueMissing => "not enough arguments for format string"
  | valueUnused => "not all arguments converted during string formatting"
  | unknownLetter c index =>
    "unsupported format character '" ++ String.ofList [shown c] ++ "' (0x" ++
      String.ofList (Nat.toDigits 16 c.toNat) ++ ") at index " ++ numeral index
  | widthTooBig => "width too big"
  | precisionTooBig => "precision too big"
  | precisionTooLarge => "precision too large"
  | widthRange => "Python int too large to convert to C ssize_t"
  | precisionRange => "Python int too large to convert to C int"
  | characterRange => "%c arg not in range(0x110000)"
  | doubleRange => "int too large to convert to float"
  | noMemory => ""

end TemplateFault

/-- A template with one place, and the text before and after it. -/
structure Template where
  before : List Char
  place : Place
  after : List Char
deriving DecidableEq, Repr

/-- The text of a template with a number in its place. -/
def Template.fill (t : Template) (n : Nat) : CodePoints :=
  .append (.ofChars t.before) (.append (t.place.fill n) (.ofChars t.after))

/-- Where the reader of a template stands. -/
inductive TemplateStage where
  /-- Between places. -/
  | plain
  /-- After the percent sign. -/
  | opened
  | flags
  | width
  | afterWidth
  /-- After the point in front of a precision. -/
  | point
  | precision
  | afterPrecision
  | afterSize
deriving DecidableEq, Repr

/-- The state of the reader of a template. -/
structure Filling where
  stage : TemplateStage
  /-- How many characters have been read. -/
  index : Nat
  /-- Whether the value has been taken. -/
  used : Bool
  /-- What has been said about the place that is open. -/
  draft : Place
  /-- The place that took the value, and the text in front of it. -/
  filled : Option (List Char × Place)
  /-- The text since then, the last character first. -/
  text : List Char
deriving DecidableEq, Repr

namespace Filling

abbrev Step := Except TemplateFault Filling

def start : Filling := ⟨.plain, 0, false, .blank, none, []⟩

def enter (s : Filling) (stage : TemplateStage) : Step := .ok { s with stage := stage }

/-- Goes on with more said about the open place. -/
def refine (s : Filling) (stage : TemplateStage) (draft : Place) : Step :=
  .ok { s with stage := stage, draft := draft }

/-- Reads a character that stands for itself. -/
def literal (s : Filling) (c : Char) : Step :=
  .ok { s with stage := .plain, text := c :: s.text }

/-- Takes the value, once. -/
def use (s : Filling) : Step :=
  if s.used then .error .valueMissing else .ok { s with used := true }

/-- The largest precision of an integer. -/
def maxIntegerPrecision : Nat := Place.maxPrecision - 3

/-- Closes the open place; there has to be memory for its width. -/
def close (s : Filling) (letter : Char) : Step :=
  let place := { s.draft with letter := letter }
  if place.width.getD 0 > Limits.memory then .error .noMemory
  else .ok { s with stage := .plain, filled := some (s.text.reverse, place), text := [] }

/-- The letter that ends a place. -/
def atLetter (value : Nat) (s : Filling) (c : Char) : Step := do
  let s ← s.use
  if c ∈ Place.integerLetters then
    if s.draft.precision.getD 0 > maxIntegerPrecision then .error .precisionTooLarge else s.close c
  else if c ∈ Place.doubleLetters then
    if Double.exceeds value then .error .doubleRange else s.close c
  else if c = 'c' then
    if value < 0x110000 then s.close c else .error .characterRange
  else if c ∈ Place.textLetters then s.close c
  else .error (.unknownLetter c s.index)

def atSize (value : Nat) (s : Filling) (c : Char) : Step :=
  if c = 'h' ∨ c = 'l' ∨ c = 'L' then s.enter .afterSize else s.atLetter value c

def atPrecision (value : Nat) (s : Filling) (c : Char) : Step :=
  if c = '.' then s.refine .point { s.draft with precision := some 0 } else s.atSize value c

/-- The digits of a width so far with one more digit. -/
def widen (s : Filling) (c : Char) : Step :=
  let n := 10 * s.draft.width.getD 0 + ofAsciiDigits [c]
  if n > Limits.index then .error .widthTooBig else s.refine .width { s.draft with width := some n }

/-- The digits of a precision so far with one more digit. -/
def sharpen (s : Filling) (c : Char) : Step :=
  let n := 10 * s.draft.precision.getD 0 + ofAsciiDigits [c]
  if n > Place.maxPrecision then .error .precisionTooBig
  else s.refine .precision { s.draft with precision := some n }

def atWidth (value : Nat) (s : Filling) (c : Char) : Step :=
  if c = '*' then do
    let s ← s.use
    if value > Limits.index then .error .widthRange else s.enter .afterWidth
  else if isAsciiDigit c then s.widen c
  else s.atPrecision value c

def atFlag (value : Nat) (s : Filling) (c : Char) : Step :=
  if c = '-' then s.refine .flags { s.draft with leftAligned := true }
  else if c = '+' then s.refine .flags { s.draft with plusSign := true }
  else if c = ' ' then s.refine .flags { s.draft with blankSign := true }
  else if c = '#' then s.refine .flags { s.draft with alternate := true }
  else if c = '0' then s.refine .flags { s.draft with zeroFilled := true }
  else s.atWidth value c

/-- What one character does, by the stage. -/
def advance (value : Nat) (s : Filling) (c : Char) : Step :=
  match s.stage with
  | .plain => if c = '%' then s.refine .opened .blank else s.literal c
  | .opened =>
    if c = '%' then s.literal c
    else if c = '(' then .error .namedPlace
    else s.atFlag value c
  | .flags => s.atFlag value c
  | .width => if isAsciiDigit c then s.widen c else s.atPrecision value c
  | .afterWidth => s.atPrecision value c
  | .point =>
    if c = '*' then do
      let s ← s.use
      if value > Place.maxPrecision then .error .precisionRange else s.enter .afterPrecision
    else if isAsciiDigit c then s.sharpen c
    else s.atSize value c
  | .precision => if isAsciiDigit c then s.sharpen c else s.atSize value c
  | .afterPrecision => s.atSize value c
  | .afterSize => s.atLetter value c

/-- Reads one character. -/
def step (value : Nat) (s : Filling) (c : Char) : Step :=
  (s.advance value c).map fun s => { s with index := s.index + 1 }

/-- Reads a text. -/
def feed (value : Nat) (s : Filling) : List Char → Step
  | [] => .ok s
  | c :: cs => match s.step value c with
    | .ok s => s.feed value cs
    | .error fault => .error fault

/--
Reads a text a number of times. If it takes no value and leaves the reader between places where it
found it, then so does every repetition, and they need not be read.
-/
def feedTimes (value : Nat) (cs : List Char) (s : Filling) : Nat → Step
  | 0 => .ok s
  | n + 1 => match s.feed value cs with
    | .ok t =>
      if s.stage = .plain ∧ t.stage = .plain ∧ !t.used then .ok t else t.feedTimes value cs n
    | .error fault => .error fault

/-- At the end no place may be open, and the value has to be put in. -/
def finish (s : Filling) : Except TemplateFault Template :=
  if s.stage ≠ .plain then .error .incomplete
  else match s.filled with
    | some (before, place) => .ok ⟨before, place, s.text.reverse⟩
    | none => .error .valueUnused

end Filling

/--
The template that a repeated text is for a number. A text without a percent sign has no place,
however often it is repeated, so it is not read.
-/
def Template.ofRepeated (text : List Char) (times value : Nat) : Except TemplateFault Template := do
  if text.contains '%' then (← Filling.start.feedTimes value text times).finish
  else .error .valueUnused

end PlonkGates.Text

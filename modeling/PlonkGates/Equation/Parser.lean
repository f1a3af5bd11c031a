import PlonkGates.Equation.Lexeme
import PlonkGates.Fault
import PlonkGates.Text.Newline

/-!
# Reading programs

The grammar of programs is regular over lexemes: after each lexeme the reader is in one of ten
stages, and each stage allows some kinds of lexemes next. A program is complete at the start of an
equation and after a right side.

    program   equations separated by line feeds and semicolons, also repeated and at both ends
    equation  [sign] term {sign term} = right
    term      [digits [*]] word [* word]
    right     [sign] word, or the digit 0

The lexemes read so far are the tokens. They are grouped into equations once the whole text is read;
if it cannot be read to its end, the error tells the first lexeme that the stage does not allow.
-/

namespace PlonkGates

/-- What has just been read. -/
inductive Stage where
  | start
  | sign
  | coefficient
  | coefficientStar
  | factor
  | factorStar
  | product
  | equals
  | rightSign
  | complete
deriving DecidableEq, Repr

namespace Stage

/-- The stage after a lexeme, if it is allowed. -/
def next : Stage → LexemeKind → Option Stage
  | start, .sign => some sign
  | start, .digits => some coefficient
  | start, .word => some factor
  | start, .newlines => some start
  | start, .semicolon => some start
  | sign, .digits => some coefficient
  | sign, .word => some factor
  | coefficient, .star => some coefficientStar
  | coefficient, .word => some factor
  | coefficientStar, .word => some factor
  | factor, .star => some factorStar
  | factor, .sign => some sign
  | factor, .equals => some equals
  | factorStar, .word => some product
  | product, .sign => some sign
  | product, .equals => some equals
  | equals, .sign => some rightSign
  | equals, .word => some complete
  | equals, .zero => some complete
  | rightSign, .word => some complete
  | complete, .newlines => some start
  | complete, .semicolon => some start
  | _, _ => none

/-- A program may end here. -/
def isFinal : Stage → Bool
  | start => true
  | complete => true
  | _ => false

end Stage

namespace Lexeme

/-- What is unexpected about a lexeme that is not allowed. -/
def asUnexpected (l : Lexeme) : Unexpected :=
  match l.kind, l.text with
  | .stray, c :: _ => .character c
  | _, text => .token (String.ofList text)

/--
Where a right side starts, a run of digits that begins with `0` gives that digit alone; the other
digits are left over.
-/
def splitZero (stage : Stage) (l : Lexeme) : Lexeme × Option Lexeme :=
  match stage, l.kind, l.text with
  | .equals, .digits, '0' :: rest =>
    (⟨.zero, ['0'], l.start⟩,
      if rest = [] then none else some ⟨.digits, rest, l.start.next '0'⟩)
  | _, _, _ => (l, none)

end Lexeme

/-- The tokens of a text up to its end or to the first place where it cannot go on. -/
structure Reading where
  tokens : List Lexeme
  failure : Option (Unexpected × Cursor)
deriving DecidableEq, Repr

namespace Reading

def cons (token : Lexeme) (r : Reading) : Reading := { r with tokens := token :: r.tokens }

/--
Reads lexemes from a stage on; `last` is the start of the token before them. The digits left over
after a zero are never allowed: a right side is complete, and no digits follow it.
-/
def ofLexemes (stage : Stage) (last : Cursor) : List Lexeme → Reading
  | [] => ⟨[], if stage.isFinal then none else some (.endOfInput, last)⟩
  | l :: rest =>
    let (token, leftOver) := l.splitZero stage
    match stage.next token.kind with
    | none => ⟨[], some (token.asUnexpected, token.start)⟩
    | some stage' => match leftOver with
      | some digits => ⟨[token], some (digits.asUnexpected, digits.start)⟩
      | none => cons token (ofLexemes stage' token.start rest)

def ofText (text : List Char) : Reading := ofLexemes .start .start (Lexeme.cut text)

end Reading

/-! ## From tokens to equations -/

namespace Equation

/-- A term under construction: what has been read of it from the right. -/
structure TermParts where
  coefficient : Option String
  factors : List String

/--
The terms of a left side. The parts to the left of the first sign belong to a term without a sign of
its own and are returned beside the terms that have one.
-/
def signedTerms : List Lexeme → TermParts × List Term
  | [] => (⟨none, []⟩, [])
  | token :: rest =>
    let (parts, terms) := signedTerms rest
    let text := String.ofList token.text
    match token.kind with
    | .sign => (⟨none, []⟩, ⟨text == "-", parts.coefficient, parts.factors⟩ :: terms)
    | .digits => ({ parts with coefficient := some text }, terms)
    | .word => ({ parts with factors := text :: parts.factors }, terms)
    | _ => (parts, terms)

/-- All terms of a left side. -/
def termsOf (tokens : List Lexeme) : List Term :=
  let (parts, terms) := signedTerms tokens
  if parts.factors.isEmpty then terms else ⟨false, parts.coefficient, parts.factors⟩ :: terms

/-- The right side: a variable with an optional sign, or none for zero. -/
def rightOf : List Lexeme → Option PublicTerm
  | [] => none
  | token :: rest => match token.kind with
    | .sign => (rightOf rest).map fun p => { p with negative := token.text == ['-'] }
    | .word => some ⟨false, String.ofList token.text⟩
    | _ => none

/-- The equation that a run of tokens without separators forms. -/
def ofTokens (tokens : List Lexeme) : Equation where
  terms := termsOf (tokens.takeWhile (·.kind ≠ .equals))
  rhs := rightOf ((tokens.dropWhile (·.kind ≠ .equals)).drop 1)
  line := tokens.head?.map fun token => (token.start.line : Int)

def isSeparator (token : Lexeme) : Bool := token.kind == .newlines || token.kind == .semicolon

/-- The tokens up to the first separator, and the further runs of tokens between separators. -/
def runs : List Lexeme → List Lexeme × List (List Lexeme)
  | [] => ([], [])
  | token :: rest =>
    let (run, others) := runs rest
    if isSeparator token then ([], if run.isEmpty then others else run :: others)
    else (token :: run, others)

/-- One equation for each run of tokens between separators. -/
def listOfTokens (tokens : List Lexeme) : List Equation :=
  let (run, others) := runs tokens
  (if run.isEmpty then others else run :: others).map ofTokens

/-! ## Errors and files -/

/-- How far the text around an error is shown to either side. -/
def contextSpan : Nat := 40

/-- The line around a place, cut off on both sides, with a mark below the place. -/
def context (text : List Char) (offset : Nat) : String :=
  let before := Text.lastLine ((text.take offset).drop (offset - contextSpan))
  let after := Text.firstLine ((text.drop offset).take contextSpan)
  String.ofList (before ++ after ++ '\n' :: List.replicate (Text.tabbedWidth 0 before) ' ' ++
    ['^', '\n'])

/-- The equations of a program. -/
def parseChars (text : List Char) : Except Fault (List Equation) :=
  let reading := Reading.ofText text
  match reading.failure with
  | none => .ok (listOfTokens reading.tokens)
  | some (what, place) =>
    .error (.unexpected what ⟨place.line, place.column, context text place.offset⟩)

def parse (text : String) : Except Fault (List Equation) := parseChars text.toList

/-- The equations of a file with the given content; the path is for the message. -/
def parseBytes (path : String) (bytes : List UInt8) : Except Fault (List Equation) :=
  match Text.decodeUtf8 bytes with
  | .ok text => parseChars (Text.unifyNewlines text)
  | .error failure => .error (.notUtf8 path failure)

end Equation

end PlonkGates

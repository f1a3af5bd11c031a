import PlonkGates.Fault

/-!
# Reading JSON

Besides the standard's values, `NaN`, `Infinity` and `-Infinity` are read as numbers. An integer
keeps its value, a number with a fraction or an exponent is rounded to double precision. Of two
entries of an object with the same key the later one counts. Surrogates that escapes name are joined
in pairs; one that stays alone is kept.

The reader goes from left to right and stops at the first error: the text is no JSON, or an integer
has too many digits, or containers are nested too deep. Inside of a container, to tell what is wrong
takes steps of its own, for which the containers around it may leave no room.
-/

namespace PlonkGates.Json

inductive ReadError where
  | malformed
  | tooManyDigits (count : Nat)
  | tooDeep (cause : Nesting)
deriving DecidableEq, Repr

abbrev Read := Except ReadError

def isGap (c : Char) : Bool := c == ' ' || c == '\t' || c == '\n' || c == '\r'

def skipGaps (cs : List Char) : List Char := cs.dropWhile isGap

/-! ## Numbers -/

/-- The fraction of a number: a point and at least one digit. -/
def fraction : List Char → List Char × List Char
  | '.' :: cs =>
    let digits := cs.takeWhile Text.isAsciiDigit
    if digits.isEmpty then ([], '.' :: cs) else ('.' :: digits, cs.dropWhile Text.isAsciiDigit)
  | cs => ([], cs)

/-- Splits the optional sign of an exponent off. -/
def exponentSign : List Char → List Char × List Char
  | '+' :: cs => (['+'], cs)
  | '-' :: cs => (['-'], cs)
  | cs => ([], cs)

/-- The exponent of a number: a mark, an optional sign and at least one digit. -/
def exponent (cs : List Char) : List Char × List Char :=
  match cs with
  | mark :: rest =>
    let (sign, rest) := exponentSign rest
    let digits := rest.takeWhile Text.isAsciiDigit
    if (mark = 'e' ∨ mark = 'E') ∧ !digits.isEmpty then
      (mark :: sign ++ digits, rest.dropWhile Text.isAsciiDigit)
    else ([], cs)
  | [] => ([], [])

/-- A number without its sign, and the rest of the text. A leading zero stands alone. -/
def unsigned (negative : Bool) (cs : List Char) : Read (Value × List Char) :=
  let run := cs.takeWhile Text.isAsciiDigit
  let whole := if run.head? = some '0' then ['0'] else run
  if whole.isEmpty then .error .malformed
  else
    let (fractionPart, rest) := fraction (cs.drop whole.length)
    let (exponentPart, rest) := exponent rest
    if fractionPart.isEmpty && exponentPart.isEmpty then
      if whole.length > Text.digitLimit then .error (.tooManyDigits whole.length)
      else
        let n : Int := Text.ofAsciiDigits whole
        .ok (.int (if negative then -n else n), rest)
    else
      match Text.Scientific.ofUnsigned? negative (whole ++ fractionPart ++ exponentPart) with
      | some x => .ok (.real (.ofScientific x), rest)
      | none => .error .malformed

/-! ## Strings -/

def hexValue? (c : Char) : Option Nat :=
  let n := c.toNat
  if 0x30 ≤ n && n ≤ 0x39 then some (n - 0x30)
  else if 0x41 ≤ n && n ≤ 0x46 then some (n - 0x41 + 10)
  else if 0x61 ≤ n && n ≤ 0x66 then some (n - 0x61 + 10)
  else none

/-- The number of four hexadecimal digits, and the rest of the text. -/
def hexFour? : List Char → Option (Nat × List Char)
  | a :: b :: c :: d :: rest => do
    let a ← hexValue? a
    let b ← hexValue? b
    let c ← hexValue? c
    let d ← hexValue? d
    some (((a * 16 + b) * 16 + c) * 16 + d, rest)
  | _ => none

/-- The code point after the mark of a numeric escape; a high and a low surrogate are one. -/
def unicodeEscape? (cs : List Char) : Option (Nat × List Char) :=
  match hexFour? cs with
  | none => none
  | some (high, rest) =>
    if Text.isHighSurrogate high then
      match rest with
      | slash :: 'u' :: more =>
        if slash = Text.backslash then match hexFour? more with
          | none => none
          | some (low, rest') =>
            if Text.isLowSurrogate low then some (Text.joinSurrogates high low, rest')
            else some (high, rest)
        else some (high, rest)
      | _ => some (high, rest)
    else some (high, rest)

/-- The code point of an escape, and the rest of the text after it. -/
def escape? : List Char → Option (Nat × List Char)
  | [] => none
  | c :: rest =>
    if c = Text.quotationMark ∨ c = Text.backslash ∨ c = '/' then some (c.toNat, rest)
    else if c = 'b' then some (0x08, rest)
    else if c = 'f' then some (0x0c, rest)
    else if c = 'n' then some (0x0a, rest)
    else if c = 'r' then some (0x0d, rest)
    else if c = 't' then some (0x09, rest)
    else if c = 'u' then unicodeEscape? rest
    else none

/--
The code points up to the closing quotation mark, and the rest of the text. The fuel is the number
of characters that may still be read.
-/
def stringBody? : Nat → List Char → Option (List Nat × List Char)
  | 0, _ => none
  | _ + 1, [] => none
  | fuel + 1, c :: cs =>
    if c = Text.quotationMark then some ([], cs)
    else if c = Text.backslash then
      match escape? cs with
      | none => none
      | some (n, rest) => (stringBody? fuel rest).map fun (body, rest) => (n :: body, rest)
    else if c.toNat < 0x20 then none
    else (stringBody? fuel cs).map fun (body, rest) => (c.toNat :: body, rest)

/-! ## Nesting -/

/-- How many containers may be opened inside one that is opened now. -/
def enter (container : JsonContainer) : Nat → Read Nat
  | 0 => .error (.tooDeep (.reading container))
  | depth + 1 => .ok depth

/-- The result of reading a number that is not finite: a step of its own, as if it were opened. -/
def readNumberWord (depth : Nat) (result : Value × List Char) : Read (Value × List Char) :=
  if depth = 0 then .error (.tooDeep .stepping) else .ok result

/--
The error of a broken string or container, where so many containers may still be opened. It is told
in three steps, each inside the one before.
-/
def broken : Nat → ReadError
  | 0 => .tooDeep .stepping
  | 1 => .tooDeep .entering
  | 2 => .tooDeep .stepping
  | _ => .malformed

/-- A string up to its closing quotation mark, and the rest of the text. -/
def stringRest (depth fuel : Nat) (cs : List Char) : Read (Text.CodePoints × List Char) :=
  match stringBody? fuel cs with
  | some (body, rest) => .ok (⟨body⟩, rest)
  | none => .error (broken depth)

/-! ## Values -/

/-- The words that stand for values. -/
def words : List (List Char × Value) := [
  (['n', 'u', 'l', 'l'], .null),
  (['t', 'r', 'u', 'e'], .bool true),
  (['f', 'a', 'l', 's', 'e'], .bool false)]

/-- The words for numbers that are not finite. -/
def numberWords : List (List Char × Value) := [
  (['N', 'a', 'N'], .real .nan),
  (['I', 'n', 'f', 'i', 'n', 'i', 't', 'y'], .real (.infinity false)),
  (['-', 'I', 'n', 'f', 'i', 'n', 'i', 't', 'y'], .real (.infinity true))]

/-- The value of one of some words at the start of a text, and the rest. -/
def word? (choice : List (List Char × Value)) (cs : List Char) : Option (Value × List Char) :=
  (choice.find? fun (w, _) => w.isPrefixOf cs).map fun (w, v) => (v, cs.drop w.length)

mutual

/-- The value at the start of a text, and the rest. At most `depth` containers enclose another. -/
def value (depth : Nat) : Nat → List Char → Read (Value × List Char)
  | 0, _ => .error .malformed
  | _ + 1, [] => .error .malformed
  | fuel + 1, c :: cs =>
    match word? words (c :: cs), word? numberWords (c :: cs) with
    | some result, _ => .ok result
    | none, some result => readNumberWord depth result
    | none, none =>
      if c = Text.quotationMark then
        (stringRest depth fuel cs).map fun (t, rest) => (.ofCodePoints t, rest)
      else if c = '[' then do
        let depth ← enter .array depth
        match skipGaps cs with
        | ']' :: rest => .ok (.list [], rest)
        | rest => do
          let (items, rest) ← listItems depth fuel rest
          .ok (.list items, rest)
      else if c = '\x7b' then do
        let depth ← enter .object depth
        match skipGaps cs with
        | '\x7d' :: rest => .ok (.object [], rest)
        | rest => do
          let (entries, rest) ← objectEntries depth fuel [] rest
          .ok (.object entries, rest)
      else if c = '-' then unsigned true cs
      else unsigned false (c :: cs)

/-- The items of a list up to its closing bracket; at least one is left. -/
def listItems (depth : Nat) : Nat → List Char → Read (List Value × List Char)
  | 0, _ => .error .malformed
  | fuel + 1, cs => do
    let (v, rest) ← value depth fuel cs
    match skipGaps rest with
    | ']' :: rest => .ok ([v], rest)
    | ',' :: rest => do
      let (vs, rest) ← listItems depth fuel (skipGaps rest)
      .ok (v :: vs, rest)
    | _ => .error (broken depth)

/-- The entries of an object up to its closing brace; at least one is left. -/
def objectEntries (depth : Nat) :
    Nat → List (Text.CodePoints × Value) → List Char →
      Read (List (Text.CodePoints × Value) × List Char)
  | 0, _, _ => .error .malformed
  | _ + 1, _, [] => .error (broken depth)
  | fuel + 1, read, c :: cs =>
    if c = Text.quotationMark then do
      let (key, rest) ← stringRest depth fuel cs
      match skipGaps rest with
      | ':' :: rest => do
        let (v, rest) ← value depth fuel (skipGaps rest)
        let read := Value.putEntry key v read
        match skipGaps rest with
        | '\x7d' :: rest => .ok (read, rest)
        | ',' :: rest => objectEntries depth fuel read (skipGaps rest)
        | _ => .error (broken depth)
      | _ => .error (broken depth)
    else .error (broken depth)

end

/--
The value that a whole text holds. At most `depth` containers enclose another. Every step reads a
character, so the fuel suffices.
-/
def parse (depth : Nat) (cs : List Char) : Read Value := do
  let (v, rest) ← value depth (2 * cs.length + 2) (skipGaps cs)
  if (skipGaps rest).isEmpty then .ok v else .error .malformed

end PlonkGates.Json

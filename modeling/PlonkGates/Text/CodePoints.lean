import PlonkGates.Text.Numeral
import PlonkGates.Text.Quoted
import PlonkGates.Text.Utf8

/-!
# Texts by their code points

An escape can name a surrogate, which is one half of a character. Two halves in a row are joined; a
half that stays alone is no character, so a text that holds it is no `String`. Such a text can be
kept, compared and shown, but it has no bytes in UTF-8. In a path there are exceptions, the
surrogates that stand for single bytes: they are encoded as these.
-/

namespace PlonkGates.Text

def isHighSurrogate (n : Nat) : Bool := 0xd800 ≤ n && n ≤ 0xdbff

def isLowSurrogate (n : Nat) : Bool := 0xdc00 ≤ n && n ≤ 0xdfff

def isSurrogate (n : Nat) : Bool := isHighSurrogate n || isLowSurrogate n

/-- The code point that a high and a low surrogate are together. -/
def joinSurrogates (high low : Nat) : Nat := 0x10000 + (high - 0xd800) * 0x400 + (low - 0xdc00)

/-- Whether a surrogate stands for a byte that is no text. -/
def standsForByte (n : Nat) : Bool := 0xdc80 ≤ n && n ≤ 0xdcff

/-- How a surrogate is written between quotes. -/
def surrogateEscape (n : Nat) : List Char := backslash :: 'u' :: hexDigits 4 n

/-- Surrogates in a row that cannot be encoded. -/
structure SurrogateRun where
  /-- The number of code points in front of the run. -/
  start : Nat
  length : Nat
  /-- The first of the surrogates. -/
  first : Nat
deriving DecidableEq, Repr

namespace SurrogateRun

/-- The run as a part of a longer text. -/
def shift (r : SurrogateRun) (n : Nat) : SurrogateRun := { r with start := n + r.start }

/-- Where the run is. A surrogate that is alone is shown. -/
def describe (r : SurrogateRun) : String :=
  if r.length = 1 then
    "character '" ++ String.ofList (surrogateEscape r.first) ++ "' in position " ++ numeral r.start
  else
    "characters in position " ++ numeral r.start ++ "-" ++ numeral (r.start + r.length - 1)

end SurrogateRun

/-- A text whose code points may be surrogates. -/
structure CodePoints where
  points : List Nat
deriving DecidableEq, Repr

namespace CodePoints

instance : LT CodePoints := ⟨fun s t => s.points < t.points⟩

instance : DecidableLT CodePoints := fun s t => inferInstanceAs (Decidable (s.points < t.points))

def ofChars (cs : List Char) : CodePoints := ⟨cs.map Char.toNat⟩

def ofText (s : String) : CodePoints := ofChars s.toList

instance : Coe String CodePoints := ⟨ofText⟩

def append (s t : CodePoints) : CodePoints := ⟨s.points ++ t.points⟩

def length (t : CodePoints) : Nat := t.points.length

def isEmpty (t : CodePoints) : Bool := t.points.isEmpty

def holdsSurrogate (t : CodePoints) : Bool := t.points.any isSurrogate

/-- The character of a code point; a surrogate is replaced. -/
def charOf (n : Nat) : Char := if isSurrogate n then Char.ofNat 0xfffd else Char.ofNat n

def toChars (t : CodePoints) : List Char := t.points.map charOf

/-- The text with every surrogate replaced. -/
def toText (t : CodePoints) : String := String.ofList t.toChars

/-- The text with every surrogate as an escape. -/
def shown (t : CodePoints) : String :=
  String.ofList (t.points.flatMap fun n => if isSurrogate n then surrogateEscape n else [charOf n])

/-- The text between quotes, with surrogates as escapes. -/
def quoted (t : CodePoints) : String :=
  let quote := quoteFor t.toChars
  let escaped := t.points.flatMap fun n =>
    if isSurrogate n then surrogateEscape n else escape quote (charOf n)
  String.ofList (quote :: escaped ++ [quote])

/-! ## Encoding -/

/-- The first code point of a text at position `index` that is barred, with the surrogates after
it. -/
def runFrom (barred : Nat → Bool) (index : Nat) : List Nat → Option SurrogateRun
  | [] => none
  | n :: rest =>
    if barred n then some ⟨index, 1 + (rest.takeWhile isSurrogate).length, n⟩
    else runFrom barred (index + 1) rest

/-- What keeps a text from being encoded in UTF-8. -/
def surrogates? (t : CodePoints) : Option SurrogateRun := runFrom isSurrogate 0 t.points

/-- What keeps a path from being encoded. -/
def barrier? (t : CodePoints) : Option SurrogateRun :=
  runFrom (fun n => isSurrogate n && !standsForByte n) 0 t.points

/-- The bytes of a code point in a path. -/
def pointBytes (n : Nat) : List UInt8 :=
  if standsForByte n then [UInt8.ofNat (n - 0xdc00)] else String.utf8EncodeChar (charOf n)

/-- The bytes of a path, if nothing keeps it from being encoded. -/
def encode (t : CodePoints) : List UInt8 := t.points.flatMap pointBytes

end CodePoints

end PlonkGates.Text

import PlonkGates.Double.Basic
import PlonkGates.Text.CodePoints

/-!
# Places for a number

A place in a template says how the number that is put there is shown: as an integer in some base, as
a number of double precision, as a text or as a character; with which sign, with how many digits,
and how it is filled up to a width.
-/

namespace PlonkGates.Text

structure Place where
  /-- Filled up on the right. -/
  leftAligned : Bool
  /-- With a plus sign. -/
  plusSign : Bool
  /-- With a blank in the place of a sign. -/
  blankSign : Bool
  /-- With a mark of the base, or with a point that could be left out. -/
  alternate : Bool
  /-- Filled up with zeros after the sign. -/
  zeroFilled : Bool
  width : Option Nat
  precision : Option Nat
  letter : Char
deriving DecidableEq, Repr

namespace Place

/-- A place of which nothing has been said. -/
def blank : Place := ⟨false, false, false, false, false, none, none, ' '⟩

/-! ## Kinds -/

/-- The letters that show an integer. -/
def integerLetters : List Char := ['d', 'i', 'u', 'o', 'x', 'X']

/-- The letters that show the text of any value. -/
def textLetters : List Char := ['s', 'r', 'a']

/-- The letters that show a number of double precision. -/
def doubleLetters : List Char := ['e', 'E', 'f', 'F', 'g', 'G']

def showsNumber (p : Place) : Bool := p.letter ∈ integerLetters || p.letter ∈ doubleLetters

/-! ## Integers -/

def base (p : Place) : Nat :=
  if p.letter = 'o' then 8 else if p.letter = 'x' ∨ p.letter = 'X' then 16 else 10

/-- The mark of the base in front of the digits. -/
def baseMark (p : Place) : List Char :=
  if p.alternate && p.base != 10 && p.letter ∈ integerLetters then ['0', p.letter] else []

/-- The digits of an integer, at least as many as the precision. -/
def integerDigits (p : Place) (n : Nat) : List Char :=
  let digits := Nat.toDigits p.base n
  let digits := if p.letter = 'X' then digits.map Char.toUpper else digits
  List.replicate (p.precision.getD 0 - digits.length) '0' ++ digits

/-! ## Numbers of double precision -/

/-- The precision of a place that names none. -/
def defaultPrecision : Nat := 6

/-- The leading digits of a number, at most as many as asked for, and its exponent of ten. -/
def leadingDigits (n count : Nat) : List Char × Nat :=
  let digits := Nat.toDigits 10 n
  if digits.length ≤ count then (digits, digits.length - 1)
  else
    let rounded := Nat.toDigits 10 (Double.roundDiv n (Nat.pow 10 (digits.length - count)))
    (rounded.take count, digits.length - 1 + (rounded.length - count))

/-- Without the zeros at the end. -/
def trimZeros (digits : List Char) : List Char :=
  (digits.reverse.dropWhile (· == '0')).reverse

/-- Digits filled up with zeros. -/
def extend (digits : List Char) (count : Nat) : List Char :=
  digits ++ List.replicate (count - digits.length) '0'

/-- A whole part and a fraction; the point is left out if no digit follows it. -/
def pointed (p : Place) (whole fraction : List Char) : List Char :=
  if fraction.isEmpty && !p.alternate then whole else whole ++ '.' :: fraction

/-- An exponent of ten with its mark. -/
def exponentPart (p : Place) (exponent : Nat) : List Char :=
  let mark := if p.letter.isUpper then 'E' else 'e'
  let digits := Nat.toDigits 10 exponent
  mark :: '+' :: (List.replicate (2 - digits.length) '0' ++ digits)

/-- Digits with the point after the first one, and an exponent. -/
def withExponent (p : Place) (digits : List Char) (exponent : Nat) : List Char :=
  p.pointed (digits.take 1) (digits.drop 1) ++ p.exponentPart exponent

/-- Digits with the point in front of the last ones. -/
def positional (p : Place) (digits : List Char) (exponent : Nat) : List Char :=
  let digits := extend digits (exponent + 1)
  p.pointed (digits.take (exponent + 1)) (digits.drop (exponent + 1))

/-- With so many significant digits, without an exponent if it is small. -/
def general (p : Place) (n precision : Nat) : List Char :=
  let count := max precision 1
  let (digits, exponent) := leadingDigits n count
  let digits := if p.alternate then extend digits count else trimZeros digits
  if exponent < count then p.positional digits exponent else p.withExponent digits exponent

/-- The largest precision; together with the digit before the point it cannot be counted. -/
def maxPrecision : Nat := Nat.pow 2 31 - 1

/-- One digit and as many after the point as the precision says. -/
def scientific (p : Place) (n precision : Nat) : List Char :=
  let count := if precision = maxPrecision then 1 else precision + 1
  let (digits, exponent) := leadingDigits n count
  p.withExponent (extend digits count) exponent

/-- An integer as a number of double precision. -/
def doubleDigits (p : Place) (n : Nat) : List Char :=
  let rounded := Double.roundUnits n 1
  let precision := p.precision.getD defaultPrecision
  if p.letter = 'e' ∨ p.letter = 'E' then p.scientific rounded precision
  else if p.letter = 'g' ∨ p.letter = 'G' then p.general rounded precision
  else p.pointed (Nat.toDigits 10 rounded) (List.replicate precision '0')

/-! ## All kinds -/

/-- The number without its sign and without the mark of the base. -/
def body (p : Place) (n : Nat) : CodePoints :=
  if p.letter ∈ integerLetters then .ofChars (p.integerDigits n)
  else if p.letter ∈ doubleLetters then .ofChars (p.doubleDigits n)
  else if p.letter = 'c' then ⟨[n]⟩
  else
    let digits := Nat.toDigits 10 n
    .ofChars (digits.take (p.precision.getD digits.length))

def sign (p : Place) : List Char :=
  if !p.showsNumber then []
  else if p.plusSign then ['+']
  else if p.blankSign then [' ']
  else []

/-- A number as the place shows it. -/
def fill (p : Place) (n : Nat) : CodePoints :=
  let mark := p.sign ++ p.baseMark
  let body := p.body n
  let missing := p.width.getD 0 - (mark.length + body.length)
  if p.leftAligned then
    .append (.ofChars mark) (.append body (.ofChars (List.replicate missing ' ')))
  else if p.zeroFilled && p.showsNumber then
    .append (.ofChars (mark ++ List.replicate missing '0')) body
  else .append (.ofChars (List.replicate missing ' ' ++ mark)) body

end Place

end PlonkGates.Text

import PlonkGates.Double.Basic

/-!
# The shortest text of a number

A finite number is written with the fewest digits that read back as the same number, and of several
decimals with that many digits the nearest is taken. Magnitudes that are neither very large nor very
small are written with a point, the others with an exponent.
-/

namespace PlonkGates

/-- The number `digits * 10 ^ exponent`. -/
structure Decimal where
  digits : Nat
  exponent : Int
deriving DecidableEq, Repr

namespace Decimal

/-- The same number without zeros at the end of its digits. -/
def trim (digits : Nat) (exponent : Int) : Decimal :=
  if h : digits ≠ 0 ∧ digits % 10 = 0 then trim (digits / 10) (exponent + 1)
  else ⟨digits, exponent⟩
termination_by digits
decreasing_by omega

/-- How many digits stand in front of the point; it is negative if zeros follow the point. -/
def pointPosition (digits : List Char) (exponent : Int) : Int := digits.length + exponent

def zeros (n : Nat) : List Char := List.replicate n '0'

/-- The digits with a point among them, and a digit on both of its sides. -/
def positional (digits : List Char) (position : Int) : List Char :=
  if position ≤ 0 then '0' :: '.' :: zeros position.natAbs ++ digits
  else if digits.length ≤ position.toNat then
    digits ++ zeros (position.toNat - digits.length) ++ ['.', '0']
  else digits.take position.toNat ++ '.' :: digits.drop position.toNat

/-- An exponent with its sign and at least two digits. -/
def exponentText (e : Int) : List Char :=
  let digits := (Text.numeral e.natAbs).toList
  (if e < 0 then '-' else '+') :: zeros (2 - digits.length) ++ digits

/-- One digit, the others after a point, and the exponent of the first one. -/
def scientific (digits : List Char) (position : Int) : List Char :=
  digits.take 1 ++ (if digits.length ≤ 1 then [] else '.' :: digits.drop 1) ++
    'e' :: exponentText (position - 1)

/-- The first digit may stand from the fourth place after the point to the sixteenth before it. -/
def toText (d : Decimal) : String :=
  let digits := (Text.numeral d.digits).toList
  let position := pointPosition digits d.exponent
  String.ofList
    (if -4 < position ∧ position ≤ 16 then positional digits position
    else scientific digits position)

end Decimal

namespace Double

/-! ## Digits -/

/-- The distance to the neighbour below: it is halved where the significand is the least one. -/
def spaceBelow (units : Nat) : Nat :=
  let gap := Nat.pow 2 (spacing units)
  if gap ≠ 1 ∧ units = Nat.pow 2 units.log2 then gap / 2 else gap

/--
Whether a decimal reads back as the magnitude: it lies between the points halfway to the neighbours.
Those two points belong to the number with the even significand.
-/
def readsBack (units : Nat) (d : Decimal) : Bool :=
  let gap := Nat.pow 2 (spacing units)
  let denominator := Nat.pow 10 (-d.exponent).toNat
  let twice := 2 * d.digits * Nat.pow 10 d.exponent.toNat * Nat.pow 2 scale
  let lower := (2 * units - spaceBelow units) * denominator
  let upper := (2 * units + gap) * denominator
  if units / gap % 2 = 0 then lower ≤ twice && twice ≤ upper else lower < twice && twice < upper

/-- Whether a magnitude is less than a power of ten. -/
def lessThanPower (units : Nat) (k : Int) : Bool :=
  units * Nat.pow 10 (-k).toNat < Nat.pow 10 k.toNat * Nat.pow 2 scale

/-- The least power of ten above a magnitude; it is between the given bounds. -/
def powerAbove (units : Nat) : Int :=
  (((List.range 640).map fun (i : Nat) => (i : Int) - 325).find? (lessThanPower units)).getD 0

/-- How often `10 ^ k` goes into a magnitude. -/
def countPowers (units : Nat) (k : Int) : Nat :=
  units * Nat.pow 10 (-k).toNat / (Nat.pow 2 scale * Nat.pow 10 k.toNat)

/-- The one of two neighbouring multiples of `10 ^ k` that is nearer; of two the even one. -/
def nearer (units : Nat) (k : Int) (low : Nat) : Nat :=
  let twice := 2 * units * Nat.pow 10 (-k).toNat
  let middle := (2 * low + 1) * Nat.pow 2 scale * Nat.pow 10 k.toNat
  if twice < middle then low
  else if middle < twice then low + 1
  else low + low % 2

/-- The multiple of `10 ^ k` that reads back, if one of the two neighbours does. -/
def multiple? (units : Nat) (k : Int) : Option Decimal :=
  let low := countPowers units k
  match readsBack units ⟨low, k⟩, readsBack units ⟨low + 1, k⟩ with
  | true, true => some ⟨nearer units k low, k⟩
  | true, false => some ⟨low, k⟩
  | false, true => some ⟨low + 1, k⟩
  | false, false => none

/-- No number needs more digits than this to be told from its neighbours. -/
def maxDigits : Nat := 17

/-- The decimal with the fewest digits that reads back; the exact one would be the last resort. -/
def shortest (units : Nat) : Decimal :=
  let top := powerAbove units
  let found := (List.range maxDigits).findSome? fun (n : Nat) =>
    multiple? units (top - (n + 1 : Nat))
  let d := found.getD ⟨units * Nat.pow 5 scale, -(scale : Int)⟩
  Decimal.trim d.digits d.exponent

/-! ## Text -/

def toText : Double → String
  | nan => "nan"
  | infinity negative => if negative then "-inf" else "inf"
  | finite negative units =>
    (if negative then "-" else "") ++ if units = 0 then "0.0" else (shortest units).toText

end Double

end PlonkGates

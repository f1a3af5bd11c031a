import PlonkGates.Text.Blank
import PlonkGates.Text.Scientific

/-!
# Numbers of double precision

No quantity of a circuit has a fraction, but such a number may be supplied where an integer is
wanted. It is kept as the nearest binary floating-point number with 53 significant digits.

The smallest positive one is `2 ^ -1074`, and all others are multiples of it. A magnitude is
therefore counted in units of that size, and rounding and comparing are done on natural numbers.
-/

namespace PlonkGates

inductive Double where
  /-- The result of no arithmetic, which equals nothing. -/
  | nan
  | infinity (negative : Bool)
  | finite (negative : Bool) (units : Nat)
deriving DecidableEq, Repr

namespace Double

/-- One is `2 ^ scale` units. -/
def scale : Nat := 1074

/-- The magnitudes from here on are infinite. -/
def overflow : Nat := Nat.pow 2 (1024 + scale)

/-- Neighbours are `2 ^ spacing` units apart at and above a magnitude. -/
def spacing (units : Nat) : Nat := units.log2 - 52

/-! ## Rounding -/

/-- The integer nearest to `num / den`, of two the even one. -/
def roundDiv (num den : Nat) : Nat :=
  let quotient := num / den
  let rest := 2 * (num % den)
  if rest < den then quotient
  else if den < rest then quotient + 1
  else quotient + quotient % 2

/-- The magnitude nearest to `num / den` units, of two the one with the even significand. -/
def roundUnits (num den : Nat) : Nat :=
  let gap := Nat.pow 2 (spacing (num / den))
  gap * roundDiv num (den * gap)

def ofUnits (negative : Bool) (units : Nat) : Double :=
  if units < overflow then finite negative units else infinity negative

/-- Exponents of ten beyond this bound are not computed: the outcome is clear without. -/
def exponentBound : Nat := 400

/-- The number nearest to a decimal one. -/
def ofScientific (x : Text.Scientific) : Double :=
  if x.mantissa = 0 then finite x.negative 0
  else if 0 ≤ x.exponent then
    if exponentBound < x.exponent.toNat then infinity x.negative
    else ofUnits x.negative
      (roundUnits (x.mantissa * Nat.pow 10 x.exponent.toNat * Nat.pow 2 scale) 1)
  else
    if x.mantissa.log2 + exponentBound < x.exponent.natAbs then finite x.negative 0
    else ofUnits x.negative
      (roundUnits (x.mantissa * Nat.pow 2 scale) (Nat.pow 10 x.exponent.natAbs))

/-! ## Comparison -/

/-- A magnitude with its sign. -/
def signed (negative : Bool) (units : Nat) : Int := if negative then -(units : Int) else units

/-- Equality of numbers; both zeros are equal, and what is no number equals nothing. -/
def same : Double → Double → Bool
  | infinity s, infinity t => s == t
  | finite s m, finite t n => signed s m == signed t n
  | _, _ => false

def equalsInt (x : Double) (z : Int) : Bool :=
  match x with
  | finite negative units => signed negative units == z * Nat.pow 2 scale
  | _ => false

/-- Whether the number is less than an integer. -/
def lessThanInt (x : Double) (z : Int) : Bool :=
  match x with
  | nan => false
  | infinity negative => negative
  | finite negative units => signed negative units < z * Nat.pow 2 scale

/-- Whether an integer is so large that the nearest number is infinite. -/
def exceeds (n : Nat) : Bool := overflow ≤ roundUnits (n * Nat.pow 2 scale) 1

/-! ## Literals -/

/-- Without underscores between two digits; any other underscore is kept. -/
def ungroup : Option Char → List Char → List Char
  | _, [] => []
  | before, c :: cs =>
    if c = '_' ∧ before.any Text.isAsciiDigit ∧ cs.head?.any Text.isAsciiDigit then
      ungroup (some c) cs
    else c :: ungroup (some c) cs

/-- The words that stand for numbers, in lower case. -/
def ofWord? (negative : Bool) (word : String) : Option Double :=
  if word = "inf" ∨ word = "infinity" then some (infinity negative)
  else if word = "nan" then some nan
  else none

/-- The number that a literal stands for; blanks around it are dropped. -/
def ofLiteral? (literal : String) : Option Double :=
  let (negative, cs) := Text.Scientific.splitSign (Text.trim literal.toList)
  match ofWord? negative (String.ofList (cs.map Char.toLower)) with
  | some x => some x
  | none => (Text.Scientific.ofUnsigned? negative (ungroup none cs)).map ofScientific

end Double

end PlonkGates

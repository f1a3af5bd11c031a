import PlonkGates.Text.Numeral

/-!
# Decimal fractions

The grammar of numbers with a fraction or an exponent: a sign, digits with at most one point among
them, and an exponent of ten after the mark `e`.
-/

namespace PlonkGates.Text

/-- The number `mantissa * 10 ^ exponent`, negated if `negative`. -/
structure Scientific where
  negative : Bool
  mantissa : Nat
  exponent : Int
deriving DecidableEq, Repr

namespace Scientific

/-- Splits a sign off. -/
def splitSign : List Char → Bool × List Char
  | '-' :: cs => (true, cs)
  | '+' :: cs => (false, cs)
  | cs => (false, cs)

/-- The exponent after the mark `e` or `E`; no mark stands for the exponent zero. -/
def exponent? : List Char → Option Int
  | [] => some 0
  | mark :: cs =>
    let (negative, ds) := splitSign cs
    if (mark = 'e' ∨ mark = 'E') ∧ ds ≠ [] ∧ ds.all isAsciiDigit then
      some (if negative then -(ofAsciiDigits ds : Int) else ofAsciiDigits ds)
    else none

/-- The number that a literal without its sign stands for. -/
def ofUnsigned? (negative : Bool) (cs : List Char) : Option Scientific :=
  let whole := cs.takeWhile isAsciiDigit
  let rest := cs.dropWhile isAsciiDigit
  let fraction := if rest.head? = some '.' then (rest.drop 1).takeWhile isAsciiDigit else []
  let tail := if rest.head? = some '.' then (rest.drop 1).dropWhile isAsciiDigit else rest
  if whole = [] ∧ fraction = [] then none
  else (exponent? tail).map fun e =>
    ⟨negative, ofAsciiDigits (whole ++ fraction), e - fraction.length⟩

end Scientific

end PlonkGates.Text

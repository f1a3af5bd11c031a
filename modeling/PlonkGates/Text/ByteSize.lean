import PlonkGates.Double.Basic

/-!
# Sizes in bytes

A size is shown in the largest unit that it reaches, with three significant digits. Units are powers
of 1024.
-/

namespace PlonkGates.Text

def byteUnits : List String := ["bytes", "KiB", "MiB", "GiB", "TiB", "PiB", "EiB"]

/-- The position of the largest unit that a size reaches. -/
def byteUnitIndex (size : Nat) : Nat := max size.log2 1 / 10

/-- A quotient with three significant digits, or more if they stand in front of the point. -/
def threeDigits (num den : Nat) : String :=
  let hundredths := Double.roundDiv (100 * num) den
  let tenths := Double.roundDiv (10 * num) den
  let digits (n : Nat) (places : Nat) : String :=
    let cs := (numeral n).toList
    String.ofList (cs.take (cs.length - places) ++ '.' :: cs.drop (cs.length - places))
  if num < 10 * den then
    if hundredths < 1000 then digits hundredths 2 else "10.0"
  else if num < 100 * den then
    if tenths < 1000 then digits tenths 1 else "100."
  else digits (Double.roundDiv num den) 0

/--
The text of a size. The size is rounded to double precision first, and one that rounds to a full
unit is shown in that unit.
-/
def byteSize (size : Nat) : String :=
  let rounded := Double.roundUnits size 1
  let index := byteUnitIndex size
  let index := if Double.roundDiv rounded (Nat.pow 1024 index) = 1024 then index + 1 else index
  (if index = 0 then numeral size else threeDigits rounded (Nat.pow 1024 index)) ++ " " ++
    byteUnits.getD index ""

end PlonkGates.Text

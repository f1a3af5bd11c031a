import PlonkGates.Text.Blank
import PlonkGates.Text.Digit

/-!
# Decimal numerals

Reading and writing integers in base ten. A numeral of more than `digitLimit` digits is neither read
nor written; leading zeros count, a sign and underscores do not.
-/

namespace PlonkGates.Text

/-- The largest number of digits that a numeral may have. -/
def digitLimit : Nat := 4300

/-- The number with the digits `ds`, most significant first. -/
def ofDigits (ds : List Nat) : Nat := ds.foldl (fun n d => 10 * n + d) 0

/-- The numeral of an integer, with a minus sign in front of a negative one. -/
def numeral : Int → String
  | .ofNat n => n.repr
  | .negSucc n => "-" ++ (n + 1).repr

/-- The least number of more than `digitLimit` digits. -/
@[irreducible] def numeralBound : Nat := Nat.pow 10 digitLimit

/-- An integer of at most `digitLimit` digits. -/
def IsShort (z : Int) : Prop := z.natAbs < numeralBound

instance : DecidablePred IsShort := fun z => Nat.decLt z.natAbs numeralBound

/-- The numeral of an integer that is short enough to be written. -/
def numeral? (z : Int) : Option String := if IsShort z then some (numeral z) else none

/-- An ASCII digit. -/
def isAsciiDigit (c : Char) : Bool := 0x30 ≤ c.toNat && c.toNat ≤ 0x39

/-- The value of a run of ASCII digits. -/
def ofAsciiDigits (cs : List Char) : Nat := ofDigits (cs.map fun c => c.toNat - 0x30)

/-! ## Reading -/

/-- Why a text is not read as an integer. -/
inductive NumeralFault where
  | malformed
  | tooManyDigits (count : Nat)
deriving DecidableEq, Repr

/-- White space around a numeral; the separators among the ASCII controls are none. -/
def isNumeralBlank (c : Char) : Bool := isBlank c && !(0x1c ≤ c.toNat && c.toNat ≤ 0x1f)

/--
The digits of any script at the front of a text, and the rest of it. There may be single underscores
between digits. The flag says whether a digit has just been read, so that an underscore, or the end
of the digits, may come next.
-/
def leadingDigits : Bool → List Char → Option (List Nat × List Char)
  | afterDigit, [] => if afterDigit then some ([], []) else none
  | afterDigit, c :: cs =>
    if c = '_' then if afterDigit then leadingDigits false cs else none
    else match digitValue? c with
      | some d => (leadingDigits true cs).map fun (ds, rest) => (d :: ds, rest)
      | none => if afterDigit then some ([], c :: cs) else none

/-- The natural number that a text consists of, apart from blanks at its end. -/
def readNatural (cs : List Char) : Except NumeralFault Nat :=
  match leadingDigits false cs with
  | none => .error .malformed
  | some (ds, rest) =>
    if ds.length > digitLimit then .error (.tooManyDigits ds.length)
    else if rest.all isNumeralBlank then .ok (ofDigits ds)
    else .error .malformed

/-- The integer that a text consists of, with an optional sign and blanks around it. -/
def readInteger (cs : List Char) : Except NumeralFault Int :=
  match cs.dropWhile isNumeralBlank with
  | '+' :: cs => (readNatural cs).map Int.ofNat
  | '-' :: cs => (readNatural cs).map fun n => -Int.ofNat n
  | cs => (readNatural cs).map Int.ofNat

end PlonkGates.Text

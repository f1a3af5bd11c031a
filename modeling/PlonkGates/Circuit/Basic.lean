import PlonkGates.Expression.OfEquation
import PlonkGates.Expression.Rules
import PlonkGates.Equation.Parser
import PlonkGates.Settings
import PlonkGates.Variable

/-!
# Circuits

A circuit is a program that keeps the rules, with the table of its variables. Its expressions never
change; values are supplied to its table.
-/

namespace PlonkGates

structure Circuit where
  field : PrimeField
  expressions : List Expression
  table : VariableTable
deriving Repr

/-- The expressions of a program whose first equation has the position `index`. -/
def Expression.listOfEquations (maximum : Value) (index : Nat) :
    List Equation → Except Fault (List Expression)
  | [] => .ok []
  | e :: es => do
    let x ← Expression.ofEquation e index maximum
    let xs ← listOfEquations maximum (index + 1) es
    .ok (x :: xs)

namespace Circuit

/-- The circuit of expressions that keep the rules. -/
def ofExpressions (field : PrimeField) (es : List Expression) : Except Fault Circuit := do
  Expression.validate es
  .ok ⟨field, es, .derive field es⟩

/-- All equations are normalised before the rules are looked at. -/
def ofEquations (settings : Settings) (es : List Equation) : Except Fault Circuit := do
  ofExpressions settings.field (← Expression.listOfEquations (.int settings.maxCoefficient) 0 es)

/-- The circuit of a program text. -/
def parse (settings : Settings) (text : String) : Except Fault Circuit := do
  ofEquations settings (← Equation.parse text)

def size (c : Circuit) : Nat := c.expressions.length

/-- Supplies values for variables: the circuit as it is afterwards. -/
def assign (c : Circuit) (pairs : List (Value × Value)) : Circuit × Except Fault Unit :=
  ({ c with table := (c.table.assign pairs).1 }, (c.table.assign pairs).2)

/-- The circuit with the supplied values, if none of them is turned down. -/
def setValues (c : Circuit) (pairs : List (Value × Value)) : Except Fault Circuit :=
  (c.assign pairs).2.map fun _ => (c.assign pairs).1

/-- The values of the public inputs in the order of their names. -/
def publicInputs (c : Circuit) : List Element := c.table.publicInputs.map (·.2)

def publicInputNames (c : Circuit) : List String := c.table.publicInputs.map (·.1)

def toText (c : Circuit) : String :=
  "Circuit(" ++ Text.numeral c.size ++ " expressions, " ++ Text.numeral c.table.size ++
    " variables)"

end Circuit

/-! ## Capacity -/

/-- How many gates a backend prepares for: two to the number of expressions plus one. -/
def paddedGateCount (n : Nat) : Nat := Nat.pow 2 (n + 1)

/--
The numeral of the same number for any integer. It is not computed if it is too long to be written,
or if there are not that many bytes of memory for it, and a negative exponent is turned down.
-/
def paddedGateNumeral (memory : Nat) (n : Int) : Except Fault String :=
  let exponent := (n + 1).toNat
  if n + 1 < 0 then .error .negativeShift
  else if exponent / Limits.wordWidth + (if exponent % Limits.wordWidth = 0 then 1 else 2) >
      Limits.words then .error .hugeInteger
  else if exponent / 8 > memory then .error .noMemory
  else if exponent > 4 * Text.digitLimit then .error .tooLongToWrite
  else match Text.numeral? (Nat.pow 2 exponent) with
    | some s => .ok s
    | none => .error .tooLongToWrite

def Circuit.paddedGates (c : Circuit) : Nat := paddedGateCount c.size

end PlonkGates

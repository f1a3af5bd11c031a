import PlonkGates.Expression.Basic
import PlonkGates.Fault

/-!
# Normalising an equation

Coefficients are read, terms are sorted into quadratic and linear ones, and a second quadratic term
is turned down. Terms are looked at from left to right, and in a term the coefficient before the
number of variables.
-/

namespace PlonkGates

/-- The largest coefficient that is accepted unless the settings say otherwise. -/
def defaultMaximum : Nat := Nat.pow 2 64 - 1

/-- Whether a number is greater than a supplied bound. -/
def exceedsBound (n : Nat) : Value → Except Fault Bool
  | .real x => .ok (x.lessThanInt n)
  | v => match v.integer? with
    | some bound => .ok ((n : Int) > bound)
    | none => .error (.unorderedOperands ">" "int" v.kind)

/-- The value of a coefficient; a term without one has the coefficient one. -/
def readCoefficient (maximum : Value) (line : Option Int) : Option String → Except Fault Nat
  | none => .ok 1
  | some text =>
    let digits := text.toList
    if digits.isEmpty || !digits.all Text.isAsciiDigit then .error (.badCoefficient text line)
    else if digits.length > Text.digitLimit then .error (.tooManyDigits digits.length)
    else do
      let n := Text.ofAsciiDigits digits
      if ← exceedsBound n maximum then .error (.badCoefficient text line) else .ok n

/-- A term of an expression. -/
inductive NormalTerm where
  | quadratic (t : QuadraticTerm)
  | linear (t : LinearTerm)

namespace NormalTerm

def quadratic? : NormalTerm → Option QuadraticTerm
  | quadratic t => some t
  | linear _ => none

def linear? : NormalTerm → Option LinearTerm
  | quadratic _ => none
  | linear t => some t

/-- The term of an expression that a written term stands for. -/
def ofTerm (maximum : Value) (line : Option Int) (t : Equation.Term) : Except Fault NormalTerm := do
  let coefficient ← readCoefficient maximum line t.coefficient
  match t.factors with
  | [x] => .ok (linear ⟨t.negative, .int coefficient, x⟩)
  | [x, y] => .ok (quadratic ⟨t.negative, .int coefficient, x, y⟩)
  | _ => .error (.badTerm t)

end NormalTerm

/-- The expression of the equation at position `index` of a program. -/
def Expression.ofEquation (e : Equation) (index : Int) (maximum : Value) :
    Except Fault Expression := do
  let terms ← e.terms.mapM (NormalTerm.ofTerm maximum e.line)
  let quadratics := terms.filterMap NormalTerm.quadratic?
  if quadratics.length > 1 then
    .error (.violation ⟨.manyQuadratic quadratics.length, index, e.line⟩)
  else
    .ok ⟨quadratics.head?, terms.filterMap NormalTerm.linear?, e.rhs, e.line⟩

end PlonkGates

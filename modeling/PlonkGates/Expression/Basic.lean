import PlonkGates.Fault

/-!
# Expressions

An expression is an equation in the shape that a gate can take: at most one quadratic term, linear
terms, and at most one public input on the right side. Whether it fits on the wires of a gate is the
business of the rules in `Expression.Rules`.

Coefficients are supplied values, because expressions may also be built by hand; those that come
from a text are integers.
-/

namespace PlonkGates

/-- The term `± coefficient · left · right`. -/
structure QuadraticTerm where
  negative : Bool
  coefficient : Value
  left : String
  right : String
deriving Repr

/-- The term `± coefficient · name`. -/
structure LinearTerm where
  negative : Bool
  coefficient : Value
  name : String
deriving Repr

structure Expression where
  quadratic : Option QuadraticTerm
  /-- In the order of the source. -/
  linear : List LinearTerm
  rhs : Option PublicTerm
  /-- The line of the equation, if it was read from a text. -/
  line : Option Int
deriving Repr

/-! ## Text -/

/-- A coefficient in front of its variables; one is left out. -/
def coefficientText (v : Value) : Except Fault String := if v.isOne then .ok "" else v.write

/-- A sign in front of a term that stands alone. -/
def signText (negative : Bool) : String := if negative then "-" else "+"

namespace QuadraticTerm

/-- The term without its sign. -/
def body (t : QuadraticTerm) : Except Fault String :=
  (coefficientText t.coefficient).map (· ++ t.left ++ "*" ++ t.right)

def toText (t : QuadraticTerm) : Except Fault String := t.body.map (signText t.negative ++ ·)

/-- Equality of terms, with coefficients compared as supplied values. -/
def same (s t : QuadraticTerm) : Bool :=
  s.negative == t.negative && s.coefficient.same t.coefficient && s.left == t.left &&
    s.right == t.right

end QuadraticTerm

namespace LinearTerm

/-- The term without its sign. -/
def body (t : LinearTerm) : Except Fault String :=
  (coefficientText t.coefficient).map (· ++ t.name)

def toText (t : LinearTerm) : Except Fault String := t.body.map (signText t.negative ++ ·)

/-- Equality of terms, with coefficients compared as supplied values. -/
def same (s t : LinearTerm) : Bool :=
  s.negative == t.negative && s.coefficient.same t.coefficient && s.name == t.name

end LinearTerm

def PublicTerm.toText (p : PublicTerm) : String := (if p.negative then "-" else "") ++ p.name

namespace Expression

/-- The coefficients in the order of their terms. -/
def coefficients (e : Expression) : List Value :=
  (e.quadratic.map (·.coefficient)).toList ++ e.linear.map (·.coefficient)

/-- The signs and bodies of the terms of the left side, the quadratic one first. -/
def signedBodies (e : Expression) : Except Fault (List (Bool × String)) := do
  let quadratic ← e.quadratic.toList.mapM fun t => t.body.map (t.negative, ·)
  let linear ← e.linear.mapM fun t => t.body.map (t.negative, ·)
  .ok (quadratic ++ linear)

/-- The terms of a left side: a plus in front of the first one is left out. -/
def leftText : List (Bool × String) → String
  | [] => ""
  | (negative, body) :: rest =>
    (if negative then "-" else "") ++ body ++
      String.join (rest.map fun (negative, body) => (if negative then " - " else " + ") ++ body)

/-- The right side of an equation. -/
def rightText : Option PublicTerm → String
  | some p => p.toText
  | none => "0"

/-- The equation in its standard spelling. -/
def toText (e : Expression) : Except Fault String := do
  .ok (leftText (← e.signedBodies) ++ " = " ++ rightText e.rhs)

/-! ## Names -/

/-- The variables that occupy a wire, in the order in which they are bound, with repetitions. -/
def wireNames (e : Expression) : List String :=
  (match e.quadratic with
    | some t => [t.left, t.right]
    | none => []) ++ e.linear.map (·.name)

/-- All variables, the public input first. -/
def names (e : Expression) : List String :=
  (e.rhs.map (·.name)).toList ++ e.wireNames

/-! ## Equality -/

/-- Equality of the equations that two expressions stand for, wherever they were read. -/
def same (d e : Expression) : Bool :=
  (match d.quadratic, e.quadratic with
    | none, none => true
    | some s, some t => s.same t
    | _, _ => false) &&
  (d.linear.length == e.linear.length &&
    (d.linear.zip e.linear).all fun (s, t) => s.same t) &&
  d.rhs == e.rhs

end Expression

end PlonkGates

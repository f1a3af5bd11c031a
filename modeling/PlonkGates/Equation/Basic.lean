import PlonkGates.Text.Quoted

/-!
# Equations as they are written

An equation has signed terms on its left side, each a product of variables with an optional
coefficient, and on its right side a signed public input or zero. Coefficients stay texts: whether
one is acceptable depends on the settings, and is decided when the equation is normalised.
-/

namespace PlonkGates

/-- The right side of an equation when it is not zero. -/
structure PublicTerm where
  negative : Bool
  name : String
deriving DecidableEq, Repr

/-- A signed product on the left side. One variable makes it linear, two make it quadratic. -/
structure Equation.Term where
  negative : Bool
  coefficient : Option String
  factors : List String
deriving DecidableEq, Repr

structure Equation where
  terms : List Equation.Term
  rhs : Option PublicTerm
  /-- The line on which the equation starts, if it was read from a text. -/
  line : Option Int
deriving DecidableEq, Repr

namespace Equation.Term

def isQuadratic (t : Term) : Bool := t.factors.length == 2

/-- A tuple of parts; a single part keeps a comma. -/
def tuple : List String → String
  | [part] => "(" ++ part ++ ",)"
  | parts => "(" ++ ", ".intercalate parts ++ ")"

/-- The full description of a term, for a message about it. -/
def describe (t : Term) : String :=
  let coefficient := match t.coefficient with
    | none => "None"
    | some text => "CoefficientNode(text=" ++ Text.quoted text ++ ")"
  let names := t.factors.map fun name => "VariableNode(name=" ++ Text.quoted name ++ ")"
  "TermNode(negative=" ++ (if t.negative then "True" else "False") ++
    ", coefficient=" ++ coefficient ++ ", variables=" ++ tuple names ++ ")"

end Equation.Term

end PlonkGates

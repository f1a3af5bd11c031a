import PlonkGates.Expression.Basic
import PlonkGates.Fault

/-!
# Laying an expression out on a gate

A quadratic term puts its operands on the wires A and B. Beside it, a linear term on one of these
variables goes to the same wire, and any other variable goes to the output wire. Without a quadratic
term, the linear terms take the wires A, B and O in their order.

No value is looked up here, so the layout depends on the expression alone.
-/

namespace PlonkGates

/-- A signed coefficient for the selector of a wire. -/
structure SelectorTerm where
  wire : Wire
  coefficient : Value
  negative : Bool
deriving Repr

/-- The variables on the wires of a gate, in the order in which they were bound. -/
abbrev Bindings := List (Wire × String)

structure Layout where
  /-- The coefficient of the quadratic term and whether it is subtracted. -/
  multiplier : Option (Value × Bool)
  bindings : Bindings
  selectors : List SelectorTerm
  rhs : Option PublicTerm
deriving Repr

namespace Layout

/-- Puts a variable on a wire, which must be free or hold the same variable already. -/
def bind (bindings : Bindings) (wire : Wire) (name : String) : Except Fault Bindings :=
  match bindings.lookup wire with
  | none => .ok (bindings ++ [(wire, name)])
  | some bound =>
    if bound = name then .ok bindings
    else .error (.divergence (.boundTwice wire bound name))

def selectorOf (wire : Wire) (t : LinearTerm) : SelectorTerm := ⟨wire, t.coefficient, t.negative⟩

/-- The wire of a linear term beside a quadratic term. -/
def wireBeside (q : QuadraticTerm) (name : String) : Wire :=
  if name = q.left then .a else if name = q.right then .b else .o

/-- Places the linear terms beside a quadratic term. -/
def placeBeside (q : QuadraticTerm) (bindings : Bindings) :
    List LinearTerm → Except Fault (Bindings × List SelectorTerm)
  | [] => .ok (bindings, [])
  | t :: rest => do
    let wire := wireBeside q t.name
    let bindings ← if wire = .o then bind bindings wire t.name else .ok bindings
    let (bindings, selectors) ← placeBeside q bindings rest
    .ok (bindings, selectorOf wire t :: selectors)

def ofExpression (e : Expression) : Except Fault Layout :=
  match e.quadratic with
  | some q => do
    let (bindings, selectors) ← placeBeside q [(.a, q.left), (.b, q.right)] e.linear
    .ok ⟨some (q.coefficient, q.negative), bindings, selectors, e.rhs⟩
  | none =>
    if e.linear.length > Wire.all.length then
      .error (.divergence (.manyLinear e.linear.length))
    else
      let placed := Wire.all.zip e.linear
      .ok ⟨none, placed.map fun (wire, t) => (wire, t.name),
        placed.map fun (wire, t) => selectorOf wire t, e.rhs⟩

end Layout

end PlonkGates

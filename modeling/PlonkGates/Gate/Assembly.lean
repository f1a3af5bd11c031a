import PlonkGates.Gate.Basic
import PlonkGates.Gate.Layout
import PlonkGates.Variable

/-!
# From a layout to a gate

The coefficients of a layout become selectors, and its variables become witnesses. The public input
is moved to the left side: `= p` subtracts its value, `= -p` adds it. A later term on a wire
replaces the selector of an earlier one; accepted expressions have one term a wire.
-/

namespace PlonkGates

/-- A supplied value as an element, negated on demand. -/
def PrimeField.signedElement (F : PrimeField) (v : Value) (negative : Bool) :
    Except Fault Element := do
  let x ← F.element v
  if negative then x.neg else .ok x

namespace Draft

/-- Folds the public input of a layout, if any, into a draft, with its value in the table. -/
def withPublic (d : Draft) (table : VariableTable) : Option PublicTerm → Except Fault Draft
  | none => .ok d
  | some p => match table.find? p.name with
    | none => .error (.divergence (.publicMissing p.name))
    | some v =>
      if v.role = .publicInput then do
        let x ← d.field.signedElement (.element v.value) (!p.negative)
        d.set .publicInput (.element x)
      else .error (.divergence (.notPublic p.name))

/-- Sets the selector of the quadratic term, if any. -/
def withMultiplier (d : Draft) : Option (Value × Bool) → Except Fault Draft
  | none => .ok d
  | some (coefficient, negative) => do
    let x ← d.field.signedElement coefficient negative
    d.set .mult (.element x)

/-- Sets the selectors of linear terms one after the other. -/
def withSelectors (d : Draft) : List SelectorTerm → Except Fault Draft
  | [] => .ok d
  | t :: rest => do
    let x ← d.field.signedElement t.coefficient t.negative
    withSelectors (← d.set t.wire.selector (.element x)) rest

/-- Attaches the wires to the witnesses of their variables. -/
def withBindings (d : Draft) (witnesses : List (String × Int)) : Bindings → Except Fault Draft
  | [] => .ok d
  | (wire, name) :: rest => match witnesses.lookup name with
    | none => .error (.divergence (.noWitness name))
    | some index => withBindings (d.attach wire index) witnesses rest

/-- The draft of a layout over a field, with the current public values and the given witnesses. -/
def ofLayout (layout : Layout) (table : VariableTable) (witnesses : List (String × Int))
    (field : PrimeField) : Except Fault Draft := do
  let d ← (Draft.empty field).withPublic table layout.rhs
  let d ← d.withMultiplier layout.multiplier
  let d ← d.withSelectors layout.selectors
  d.withBindings witnesses layout.bindings

end Draft

end PlonkGates

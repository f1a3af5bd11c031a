import PlonkGates.Field.Arithmetic

/-!
# Gates

A gate states that

    q_m·a·b + q_l·a + q_r·b + q_o·o + q_c + pi = 0

for the values `a`, `b` and `o` on its wires. The `q`s are its selectors, and `pi` is the public
input folded into it. A draft is a gate under construction: its wires may be free, and nothing has
been checked about those that are not.
-/

namespace PlonkGates

/-- The selectors of a gate and its public input. -/
structure Selectors where
  qm : Element
  ql : Element
  qr : Element
  qo : Element
  qc : Element
  pi : Element
deriving DecidableEq, Repr

/-- One of the six numbers of a gate. -/
inductive Selector where
  | mult
  | left
  | right
  | output
  | constant
  | publicInput
deriving DecidableEq, Repr

namespace Selectors

/-- All numbers zero. -/
def zero (F : PrimeField) : Selectors :=
  let x := Element.number F.zero
  ⟨x, x, x, x, x, x⟩

def toList (s : Selectors) : List Element := [s.qm, s.ql, s.qr, s.qo, s.qc, s.pi]

/-- The names of the numbers, in the same order. -/
def names : List String := ["q_m", "q_l", "q_r", "q_o", "q_c", "pi"]

def set (s : Selectors) (selector : Selector) (x : Element) : Selectors :=
  match selector with
  | .mult => { s with qm := x }
  | .left => { s with ql := x }
  | .right => { s with qr := x }
  | .output => { s with qo := x }
  | .constant => { s with qc := x }
  | .publicInput => { s with pi := x }

/-- The numbers with their names, as representatives closest to zero. -/
def toText (s : Selectors) : Except Fault String := do
  let shown ← (names.zip s.toList).mapM fun (name, x) => do
    return name ++ "=" ++ (← Text.writeInteger (← x.signed))
  return "Constraint(" ++ ", ".intercalate shown ++ ")"

end Selectors

/-- The number that belongs to a wire. -/
def Wire.selector : Wire → Selector
  | a => .left
  | b => .right
  | o => .output

/-- A gate under construction over a field. -/
structure Draft where
  field : PrimeField
  selectors : Selectors
  a : Option Int
  b : Option Int
  o : Option Int
deriving DecidableEq, Repr

namespace Draft

/-- All numbers zero and all wires free. -/
def empty (F : PrimeField) : Draft := ⟨F, .zero F, none, none, none⟩

/-- Sets one of the six numbers to a supplied value. -/
def set (d : Draft) (selector : Selector) (v : Value) : Except Fault Draft :=
  (d.field.element v).map fun x => { d with selectors := d.selectors.set selector x }

/-- Attaches a wire to the witness with an index. -/
def attach (d : Draft) (wire : Wire) (index : Int) : Draft :=
  match wire with
  | .a => { d with a := some index }
  | .b => { d with b := some index }
  | .o => { d with o := some index }

end Draft

/-- A recorded gate: its numbers, and the indices of the witnesses on its wires. -/
structure Gate where
  selectors : Selectors
  a : Nat
  b : Nat
  o : Nat
deriving DecidableEq, Repr

namespace Gate

def wires (g : Gate) : List Nat := [g.a, g.b, g.o]

/-- The left side of the gate for the given values on its wires. -/
def evaluate (g : Gate) (a b o : Value) : Except Fault Element := do
  let product ← (← g.selectors.qm.mul a).mul b
  let sum ← product.add (.element (← g.selectors.ql.mul a))
  let sum ← sum.add (.element (← g.selectors.qr.mul b))
  let sum ← sum.add (.element (← g.selectors.qo.mul o))
  let sum ← sum.add (.element g.selectors.qc)
  sum.add (.element g.selectors.pi)

/-- The encoding of the six numbers, one after the other. -/
def bytes (g : Gate) : Except Fault (List UInt8) := do
  return (← g.selectors.toList.mapM (·.bytes)).flatten

end Gate

end PlonkGates

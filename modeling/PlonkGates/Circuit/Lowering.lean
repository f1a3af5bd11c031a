import PlonkGates.Circuit.Basic
import PlonkGates.Gate.Assembly
import PlonkGates.System

/-!
# Lowering a circuit to gates

A circuit adds itself to a constraint system: first its witnesses in the order of their names, then
one gate for each expression. If something fails, what was added before stays. Lowering adds a
circuit to an empty system.
-/

namespace PlonkGates

namespace Circuit

/-- The expression at fault is added to a divergence. If it cannot be written, this is the fault. -/
def inExpression (index : Nat) (e : Expression) : Fault → Fault
  | .divergence cause => match e.toText with
    | .ok text => .divergence (.inExpression index text cause)
    | .error fault => fault
  | fault => fault

/-- The draft of the expression at position `index`. -/
def draft (c : Circuit) (witnesses : List (String × Int)) (index : Nat) (e : Expression) :
    Except Fault Draft :=
  (do Draft.ofLayout (← Layout.ofExpression e) c.table witnesses c.field).mapError
    (inExpression index e)

/-- The values of named witnesses up to the first that fails, and their indices from `index` on. -/
def witnessesFrom (field : PrimeField) (index : Nat) :
    List (String × Element) → List Element × Except Fault (List (String × Int))
  | [] => ([], .ok [])
  | (name, x) :: rest => match field.element (.element x) with
    | .error fault => ([], .error fault)
    | .ok x =>
      let (xs, witnesses) := witnessesFrom field (index + 1) rest
      (x :: xs, witnesses.map ((name, (index : Int)) :: ·))

/-- The gates of expressions up to the first that fails; the first has the position `index`. -/
def gatesFrom (c : Circuit) (s : ConstraintSystem) (witnesses : List (String × Int))
    (index : Nat) : List Expression → List Gate × Except Fault Unit
  | [] => ([], .ok ())
  | e :: es => match (c.draft witnesses index e).bind s.gateOf with
    | .error fault => ([], .error fault)
    | .ok g =>
      let (gates, result) := gatesFrom c s witnesses (index + 1) es
      (g :: gates, result)

/-- Adds the witnesses and gates of a circuit to a system over the same field. -/
def addTo (c : Circuit) (s : ConstraintSystem) : ConstraintSystem × Except Fault Unit :=
  if s.field = c.field then
    let (xs, named) := witnessesFrom s.field s.witnesses.length c.table.witnesses
    let s := { s with witnesses := s.witnesses ++ xs }
    match named with
    | .error fault => (s, .error fault)
    | .ok witnesses =>
      let (gates, result) := gatesFrom c s witnesses 0 c.expressions
      ({ s with gates := s.gates ++ gates }, result)
  else (s, .error (.circuitField s.field c.field))

end Circuit

/-- What a proving backend needs of a circuit. -/
structure LoweredCircuit where
  system : ConstraintSystem
  /-- The public inputs in the order of their names. -/
  publicInputs : List Element
  paddedGates : Nat
deriving DecidableEq, Repr

/-- The gates of a circuit in a system of its own. -/
def Circuit.lower (c : Circuit) : Except Fault LoweredCircuit :=
  match c.addTo (.empty c.field) with
  | (_, .error fault) => .error fault
  | (s, .ok ()) =>
    if s.gates.length = c.expressions.length then .ok ⟨s, c.publicInputs, c.paddedGates⟩
    else .error (.divergence (.gateCount c.expressions.length s.gates.length))

namespace LoweredCircuit

def gates (l : LoweredCircuit) : List Gate := l.system.gates

/-- The rows of a table of a lowered circuit: the padded number, or one for each gate. -/
def rows (l : LoweredCircuit) (padded : Bool) : Option Int :=
  if padded then some l.paddedGates else none

def selectorTable (l : LoweredCircuit) (padded : Bool) : Except Fault (List (List Element)) :=
  l.system.selectorTable (l.rows padded)

def wireTable (l : LoweredCircuit) (padded : Bool) : Except Fault (List (List Nat)) :=
  l.system.wireTable (l.rows padded)

def selectorArray (l : LoweredCircuit) (a : Allocator) (padded : Bool) :
    Except Fault (List (List Element)) :=
  l.system.selectorArray a (l.rows padded)

def wireArray (l : LoweredCircuit) (a : Allocator) (padded : Bool) :
    Except Fault (List (List Nat)) :=
  l.system.wireArray a (l.rows padded)

/-- The encoding of the selectors of all gates, one gate after the other. -/
def selectorBytes (l : LoweredCircuit) : Except Fault (List UInt8) := do
  return (← l.gates.mapM (·.bytes)).flatten

end LoweredCircuit

end PlonkGates

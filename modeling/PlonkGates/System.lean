import PlonkGates.Gate.Basic

/-!
# Constraint systems

A constraint system records witnesses and gates over them. Witness 0 holds zero and is on every
wire that is not attached. Gates are checked when they are recorded: they have to be over the field
of the system, and their wires have to be attached to recorded witnesses.
-/

namespace PlonkGates

/-- Makes room for tables. It may turn a table down, and it says why. -/
structure Allocator where
  refusal? : TableShape → Option TableFault

namespace Allocator

def reserve (a : Allocator) (t : TableShape) : Except Fault Unit :=
  match a.refusal? t with
  | none => .ok ()
  | some fault => .error (.table fault)

/-- Memory for so many bytes: a table has to be countable, and there has to be room for it. -/
def ofMemory (memory : Nat) : Allocator where
  refusal? t :=
    if t.rows > Limits.index then some .tooManyRows
    else if t.bytes > Limits.index then some .tooManyBytes
    else if t.bytes > memory then some (.noMemory t)
    else none

end Allocator

structure ConstraintSystem where
  field : PrimeField
  /-- The values of all witnesses, the one that holds zero first. -/
  witnesses : List Element
  gates : List Gate
deriving DecidableEq, Repr

namespace ConstraintSystem

def empty (F : PrimeField) : ConstraintSystem := ⟨F, [.number F.zero], []⟩

/-- How many witnesses were recorded, apart from the one that holds zero. -/
def witnessCount (s : ConstraintSystem) : Nat := s.witnesses.length - 1

/-- Records a supplied value: the system as it is afterwards, and the index of the witness. -/
def appendWitness (s : ConstraintSystem) (v : Value) : ConstraintSystem × Except Fault Nat :=
  match s.field.element v with
  | .error fault => (s, .error fault)
  | .ok x => ({ s with witnesses := s.witnesses ++ [x] }, .ok s.witnesses.length)

/-- The index on a wire; a free wire gets the witness that holds zero. -/
def wireIndex (s : ConstraintSystem) : Option Int → Except Fault Nat
  | none => .ok 0
  | some index =>
    if 0 ≤ index ∧ index < s.witnesses.length then .ok index.toNat
    else .error (.unknownWitness index)

/-- The gate that a draft becomes in this system. -/
def gateOf (s : ConstraintSystem) (d : Draft) : Except Fault Gate :=
  if d.field = s.field then do
    let a ← s.wireIndex d.a
    let b ← s.wireIndex d.b
    let o ← s.wireIndex d.o
    .ok ⟨d.selectors, a, b, o⟩
  else .error (.gateField d.field s.field)

/-- Records a draft as a gate: the system as it is afterwards. -/
def appendGate (s : ConstraintSystem) (d : Draft) : ConstraintSystem × Except Fault Unit :=
  match s.gateOf d with
  | .error fault => (s, .error fault)
  | .ok g => ({ s with gates := s.gates ++ [g] }, .ok ())

/-! ## Evaluation -/

/-- The place of a witness in the list; a negative index counts from the end. -/
def witnessPosition (s : ConstraintSystem) (index : Int) : Int :=
  if index < 0 then index + s.witnesses.length else index

/-- The value of a witness. What is no index at all is told from a place outside the list. -/
def witnessValue (s : ConstraintSystem) (index : Int) : Except Fault Element :=
  let position := s.witnessPosition index
  match if position < 0 then none else s.witnesses[position.toNat]? with
  | some x => .ok x
  | none =>
    .error (if index > Limits.index ∨ index < -(Limits.index : Int) - 1 then .indexRange
      else .noSuchIndex)

/-- The value of the witness with a supplied index. -/
def witnessAt (s : ConstraintSystem) (index : Value) : Except Fault Element :=
  match index.integer? with
  | some n => s.witnessValue n
  | none => .error (.indexKind index.kind)

/-- The left side of a gate with the recorded values on its wires. -/
def evaluate (s : ConstraintSystem) (g : Gate) : Except Fault Element := do
  let a ← s.witnessValue g.a
  let b ← s.witnessValue g.b
  let o ← s.witnessValue g.o
  g.evaluate (.element a) (.element b) (.element o)

/-- The left sides of all gates. -/
def leftSides (s : ConstraintSystem) : Except Fault (List Element) := s.gates.mapM s.evaluate

/-- The left sides of all gates as representatives closest to zero. -/
def signedLeftSides (s : ConstraintSystem) : Except Fault (List Int) :=
  s.gates.mapM fun g => do (← s.evaluate g).signed

/-- The positions of the elements that are not zero, counted from `index`. -/
def nonzeroPositions (index : Nat) : List Element → List Nat
  | [] => []
  | x :: xs =>
    if x.isZero then nonzeroPositions (index + 1) xs else index :: nonzeroPositions (index + 1) xs

/-- The positions of the gates that do not hold. -/
def unsatisfied (s : ConstraintSystem) : Except Fault (List Nat) :=
  s.leftSides.map (nonzeroPositions 0)

def isSatisfied (s : ConstraintSystem) : Except Fault Bool := s.unsatisfied.map (·.isEmpty)

/-! ## Tables -/

/-- The number of rows of a table: one a gate, or more on demand. -/
def rowCount (s : ConstraintSystem) : Option Int → Except Fault Nat
  | none => .ok s.gates.length
  | some rows =>
    if rows < s.gates.length then .error (.tooFewRows s.gates.length rows) else .ok rows.toNat

/-- Rows filled up with copies of one row. -/
def padRows {α : Type} (row : List α) (rows : Nat) (table : List (List α)) : List (List α) :=
  table ++ List.replicate (rows - table.length) row

/-- The selectors of every gate in a row, with rows of zeros up to the wanted number. -/
def selectorTable (s : ConstraintSystem) (rows : Option Int) :
    Except Fault (List (List Element)) :=
  (s.rowCount rows).map fun n =>
    padRows (Selectors.zero s.field).toList n (s.gates.map (·.selectors.toList))

/-- The witness indices on the wires of every gate in a row, padded in the same way. -/
def wireTable (s : ConstraintSystem) (rows : Option Int) : Except Fault (List (List Nat)) :=
  (s.rowCount rows).map fun n => padRows [0, 0, 0] n (s.gates.map (·.wires))

/-! ## Arrays -/

/-- The table of selectors as an array that room is made for. -/
def selectorArray (s : ConstraintSystem) (a : Allocator) (rows : Option Int) :
    Except Fault (List (List Element)) := do
  a.reserve ⟨← s.rowCount rows, 6, "object"⟩
  s.selectorTable rows

/-- The table of witness indices as an array that room is made for. -/
def wireArray (s : ConstraintSystem) (a : Allocator) (rows : Option Int) :
    Except Fault (List (List Nat)) := do
  a.reserve ⟨← s.rowCount rows, 3, "int64"⟩
  s.wireTable rows

end ConstraintSystem

end PlonkGates

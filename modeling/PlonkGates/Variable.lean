import PlonkGates.Expression.Basic
import PlonkGates.Field.Arithmetic

/-!
# Variables

Every name of a circuit is a witness, known to the prover alone and bound to a wire, or a public
input, known to both sides and folded into the public slot of a gate. The table keeps the variables
in the order of their names. Roles are fixed when the table is made; afterwards only values change.
-/

namespace PlonkGates

inductive Role where
  | witness
  | publicInput
deriving DecidableEq, Repr

def Role.label : Role → String
  | witness => "witness"
  | publicInput => "public_input"

structure Variable where
  name : String
  role : Role
  value : Element
deriving DecidableEq, Repr

def Variable.isPublic (v : Variable) : Bool := v.role == .publicInput

/-- The variables of a circuit in increasing order of their names. -/
structure VariableTable where
  field : PrimeField
  entries : List Variable
deriving DecidableEq, Repr

/-- What a supplied value is as a key: a text may name a variable, lists and objects are no keys. -/
def Value.key? : Value → Except Fault (Option String)
  | .text s => .ok (some s)
  | .list items => .error (.notAKey (Value.list items).kind)
  | .object entries => .error (.notAKey (Value.object entries).kind)
  | _ => .ok none

namespace VariableTable

/-! ## Construction -/

/-- Adds a variable in its place; one with the same name is replaced. -/
def insert (v : Variable) : List Variable → List Variable
  | [] => [v]
  | w :: ws =>
    if v.name < w.name then v :: w :: ws
    else if v.name = w.name then v :: ws
    else w :: insert v ws

/-- Adds a variable in its place, unless its name is taken. -/
def insertNew (v : Variable) : List Variable → List Variable
  | [] => [v]
  | w :: ws =>
    if v.name < w.name then v :: w :: ws
    else if v.name = w.name then w :: ws
    else w :: insertNew v ws

/-- The table of the given variables; of two with the same name the later one counts. -/
def ofVariables (field : PrimeField) (vs : List Variable) : VariableTable :=
  ⟨field, vs.foldl (fun table v => insert v table) []⟩

/-- The names of an expression with the roles in which it mentions them, in order. -/
def mentions (e : Expression) : List (String × Role) :=
  (e.rhs.map fun p => (p.name, Role.publicInput)).toList ++
    e.wireNames.map fun name => (name, Role.witness)

/-- The table of a program: the first mention of a name decides its role, and values are zero. -/
def derive (field : PrimeField) (es : List Expression) : VariableTable :=
  ⟨field, (es.flatMap mentions).foldl
    (fun table (name, role) => insertNew ⟨name, role, .number field.zero⟩ table) []⟩

/-! ## Access -/

def size (t : VariableTable) : Nat := t.entries.length

def find? (t : VariableTable) (name : String) : Option Variable :=
  t.entries.find? (·.name = name)

/-- Looks a supplied key up; only a text can be found. -/
def get? (t : VariableTable) (key : Value) : Except Fault (Option Variable) :=
  key.key?.map fun name => name.bind t.find?

/-- The variable of a key that has to be there. -/
def lookup (t : VariableTable) (key : Value) : Except Fault Variable := do
  match ← t.get? key with
  | some v => .ok v
  | none => .error (.missingKey key)

def publicInputs (t : VariableTable) : List (String × Element) :=
  (t.entries.filter (·.isPublic)).map fun v => (v.name, v.value)

def witnesses (t : VariableTable) : List (String × Element) :=
  (t.entries.filter (!·.isPublic)).map fun v => (v.name, v.value)

def roles (t : VariableTable) : List (String × Role) := t.entries.map fun v => (v.name, v.role)

def values (t : VariableTable) : List (String × Element) :=
  t.entries.map fun v => (v.name, v.value)

def toText (t : VariableTable) : String :=
  "VariableTable(" ++ Text.numeral t.size ++ " variables, " ++ t.field.toText ++ ")"

/-! ## Values -/

/-- Gives the variable of a name a new value. -/
def put (vs : List Variable) (name : String) (x : Element) : List Variable :=
  vs.map fun v => if v.name = name then { v with value := x } else v

/-- Checks one supplied pair: the name has to be known, then the value has to fit the field. -/
def readPair (t : VariableTable) (pair : Value × Value) : Except Fault (String × Element) := do
  match ← t.get? pair.1 with
  | none => .error (.noSuchValue pair.1)
  | some v => .ok (v.name, ← t.field.element pair.2)

/-- Supplies values: the table as it is afterwards, and the fault of the first pair that is turned
down. All pairs are checked before any of them is stored. -/
def assign (t : VariableTable) (pairs : List (Value × Value)) :
    VariableTable × Except Fault Unit :=
  match pairs.mapM t.readPair with
  | .error fault => (t, .error fault)
  | .ok updates =>
    ({ t with entries := updates.foldl (fun vs (name, x) => put vs name x) t.entries }, .ok ())

/-- The table with the supplied values, if none of them is turned down. -/
def setValues (t : VariableTable) (pairs : List (Value × Value)) : Except Fault VariableTable :=
  (t.assign pairs).2.map fun _ => (t.assign pairs).1

end VariableTable

end PlonkGates

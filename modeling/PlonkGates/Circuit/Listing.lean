import PlonkGates.Circuit.Lowering

/-!
# Listings and failures

A listing describes the gates of a lowered circuit: the equation and line of each gate, its six
numbers as representatives closest to zero, and the variables and witness indices on its wires. A
failure tells an equation that does not hold, and by how much.
-/

namespace PlonkGates

/-- The description of one gate. -/
structure ListingEntry where
  equation : String
  line : Option Int
  selectors : List (String × Int)
  wires : List (Wire × Option String)
  witnessIndices : List Nat
deriving DecidableEq, Repr

structure Listing where
  /-- The path of the program. -/
  source : String
  gateCount : Nat
  paddedGates : Nat
  publicInputs : List String
  witnesses : List String
  gates : List ListingEntry
deriving DecidableEq, Repr

namespace ListingEntry

/-- The row of a table at some place. -/
def rowAt {α : Type} (table : List (List α)) (row : Nat) : Except Fault (List α) :=
  match table[row]? with
  | some numbers => .ok numbers
  | none => .error (.table (.noRow row table.length))

/-- The description of the gate of an expression, by its rows in both tables of a circuit. -/
def ofRow (field : PrimeField) (selectors : List (List Element)) (wires : List (List Nat))
    (row : Nat) (e : Expression) : Except Fault ListingEntry := do
  let layout ← Layout.ofExpression e
  let equation ← e.toText
  let numbers ← (← rowAt selectors row).mapM (·.integer)
  let indices ← rowAt wires row
  .ok {
    equation := equation
    line := e.line
    selectors := Selectors.names.zip (numbers.map fun z => (field.reduce z).signed)
    wires := Wire.all.map fun wire => (wire, layout.bindings.lookup wire)
    witnessIndices := indices }

def toValue (entry : ListingEntry) : Value := .object [
  ("equation", .text entry.equation),
  ("line", match entry.line with
    | some line => .int line
    | none => .null),
  ("selectors", .object (entry.selectors.map fun (name, z) => (name, .int z))),
  ("wires", .object (entry.wires.map fun (wire, name) =>
    (wire.label, match name with
      | some name => .text name
      | none => .null))),
  ("witness_indices", .list (entry.witnessIndices.map fun (i : Nat) => .int i))]

end ListingEntry

namespace Listing

/--
The listing of a circuit that was lowered. The tables have a row for each gate and are not padded,
and room for them is taken for granted.
-/
def ofLowered (c : Circuit) (l : LoweredCircuit) (source : String) : Except Fault Listing := do
  let selectors ← l.selectorTable false
  let wires ← l.wireTable false
  let entries ← c.expressions.zipIdx.mapM fun (e, row) =>
    ListingEntry.ofRow l.system.field selectors wires row e
  .ok {
    source := source
    gateCount := l.gates.length
    paddedGates := l.paddedGates
    publicInputs := c.publicInputNames
    witnesses := c.table.witnesses.map (·.1)
    gates := entries }

def toValue (l : Listing) : Value := .object [
  ("source", .text l.source),
  ("num_gates", .int l.gateCount),
  ("padded_gates", .int l.paddedGates),
  ("public_inputs", .list (l.publicInputs.map .text)),
  ("witnesses", .list (l.witnesses.map .text)),
  ("gates", .list (l.gates.map (·.toValue)))]

end Listing

/-! ## Failures -/

/-- Where an expression stands: on a line, or at a position if it was not read from a text. -/
def Expression.placeText (index : Nat) (e : Expression) : Except Fault String :=
  match e.line with
  | some line => (Text.writeInteger line).map ("line " ++ ·)
  | none => (Text.writeInteger index).map ("gate " ++ ·)

/-- The line about the gate at position `index` with a residue that is not zero. -/
def failureText (index : Nat) (e : Expression) (residue : Int) : Except Fault String := do
  let place ← e.placeText index
  let equation ← e.toText
  let shown ← Text.writeInteger residue
  .ok (place ++ ": " ++ equation ++ " (gate evaluates to " ++ shown ++ ")")

/-- The lines about all gates with a left side that is not zero, from position `index` on. -/
def failureTexts (index : Nat) :
    List Expression → List Element → Except Fault (List String)
  | _, [] => .ok []
  | [], x :: xs => if x.isZero then failureTexts (index + 1) [] xs else .error .noSuchExpression
  | e :: es, x :: xs =>
    if x.isZero then failureTexts (index + 1) es xs
    else do
      let text ← failureText index e (← x.signed)
      let texts ← failureTexts (index + 1) es xs
      .ok (text :: texts)

/-- One line for each gate of a circuit that does not hold, with its equation. -/
def Circuit.failures (c : Circuit) (l : LoweredCircuit) : Except Fault (List String) := do
  failureTexts 0 c.expressions (← l.system.leftSides)

end PlonkGates
